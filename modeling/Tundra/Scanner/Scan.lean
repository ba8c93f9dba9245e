import Tundra.StatCache
import Tundra.PathUtil
import Tundra.IncludeScanner
import Tundra.ScanCache

/-!
# Implicit dependencies

`Scanner.cpp`: the files a file includes, directly and through other files. A stack holds the files that are
still to be looked at and a hash set those that were found; the list of files a file includes comes from the
scan cache if it has one, else the file is read and its include directives are resolved, and the cache gets the
result.

The stat cache is taken to say what the file system says. A path that does not fit into a path buffer ends the program.
-/

namespace Tundra

/-- `FileInfo::Exists`. -/
def FileInfo.exists (info : FileInfo) : Bool := info.flags &&& FileInfo.kFlagExists != 0

inductive FileRead where
  | cannotOpen
  | readFails
  | bytes (data : List UInt8)
deriving DecidableEq

structure FileSystem where
  stat : CString → StatResult
  read : CString → FileRead

namespace FileSystem

/-- What the stat cache says about a path. -/
def info (fs : FileSystem) (path : CString) : FileInfo := getFileInfo (fs.stat path)

end FileSystem

/-- The path of an include directive under a directory. -/
def candidate (directory : Option PathBuffer) (includeBuf : PathBuffer) : Option CString :=
  directory.bind fun directory => (pathConcat directory includeBuf).bind pathFormat

/-- The paths `FindFile` tries for a directive of a file, in order. -/
def candidates (includePaths : List CString) (filenameBuf includeBuf : PathBuffer) (isSystemInclude : Bool) :
    List (Option CString) :=
  (if isSystemInclude then [] else [candidate (some (pathStripLast filenameBuf).2) includeBuf]) ++
    includePaths.map fun path => candidate (pathInit path .unix) includeBuf

def firstExisting (fs : FileSystem) : List (Option CString) → Option (Option CString)
  | [] => some none
  | none :: _ => none
  | some path :: rest => if (fs.info path).exists then some (some path) else firstExisting fs rest

def findFile (fs : FileSystem) (includePaths : List CString) (filename : CString) (inc : IncludeData) :
    Option (Option CString) :=
  (pathInit filename .unix).bind fun filenameBuf => (pathInit inc.string .unix).bind fun includeBuf =>
    firstExisting fs (candidates includePaths filenameBuf includeBuf inc.isSystemInclude)

/-- The include directives of a text. In front of the buffer with the text no string begins with white space. -/
def ScannerType.scan (type : ScannerType) (text : CString) : List IncludeData :=
  match type with
  | .cpp => scanIncludesCpp text
  | .generic requireWhitespace useSeparators bareMeansSystem keywords =>
      scanIncludesGeneric (fun _ => .empty) requireWhitespace useSeparators bareMeansSystem keywords text

/-- The text of a file: without the UTF-8 marker, with a newline behind it. -/
def fileText (data : List UInt8) : CString :=
  let data := data ++ [10]
  .ofBytes (if data.take 3 = [0xef, 0xbb, 0xbf] then data.drop 3 else data)

def scanFile (fs : FileSystem) (scanner : ScannerData) (filename : CString) (data : List UInt8) :
    Option (List CString) :=
  ((scanner.scannerType.scan (fileText data)).mapM (findFile fs scanner.includePaths filename)).map (List.filterMap id)

def FileAndHash.ofPath (path : CString) : FileAndHash := ⟨path, djb2HashPath path⟩

section Loop

variable (fs : FileSystem) (scanner : ScannerData)

/-- The part of the loop of `ScanImplicitDeps` that finds the files one file includes, and the cache after it. -/
def includedFiles (cache : ScanCache) (fn : CString) : Option (List FileAndHash × ScanCache) :=
  let info := fs.info fn
  if ¬ info.exists then some ([], cache)
  else
    let key := computeScanCacheKey fn scanner.scannerGuid
    match cache.lookup key info.timestamp with
    | (some files, cache) => some (files, cache)
    | (none, cache) =>
        match fs.read fn with
        | .cannotOpen => some ([], cache)
        | .bytes [] => some ([], cache)
        | .readFails => some ([], cache.insert key info.timestamp [])
        | .bytes data =>
            (scanFile fs scanner fn data).map fun found => (found.map .ofPath, cache.insert key info.timestamp found)

/-- The files that were found and those that are still to be looked at. The top of the stack is its first element. -/
structure IncludeSearch where
  incset : HashTable Unit
  filenameStack : List CString

/-- `IncludeSetAddNoDuplicateString` or `IncludeSetAddDuplicateString`; a file that is new is scheduled for
scanning as well. -/
def IncludeSearch.addFile (s : IncludeSearch) (file : FileAndHash) : IncludeSearch :=
  match s.incset.lookup file.filenameHash file.filename with
  | some _ => s
  | none => ⟨s.incset.insert file.filenameHash file.filename (), file.filename :: s.filenameStack⟩

/-- How `ScanImplicitDeps` ends. -/
inductive ScanOutcome where
  | returned (includedFiles : List FileAndHash) (cache : ScanCache)
  | croaked
  | outOfFuel
deriving DecidableEq

/-- The files of the hash set in the order of `HashSetWalk`. -/
def walkFiles (incset : HashTable Unit) : List FileAndHash := incset.walk.map fun r => ⟨r.string, r.hash⟩

/-- The loop of `ScanImplicitDeps`, with a bound on the number of turns. -/
def scanLoop : Nat → IncludeSearch → ScanCache → ScanOutcome
  | 0, _, _ => .outOfFuel
  | fuel + 1, s, cache =>
      match s.filenameStack with
      | [] => .returned (walkFiles s.incset) cache
      | fn :: stack =>
          match includedFiles fs scanner cache fn with
          | none => .croaked
          | some (files, cache) => scanLoop fuel (files.foldl IncludeSearch.addFile ⟨s.incset, stack⟩) cache

def scanImplicitDeps (fuel : Nat) (fileName : CString) (cache : ScanCache) : ScanOutcome :=
  scanLoop fs scanner fuel ⟨.init, [fileName]⟩ cache

end Loop

def ScanOutcome.files : ScanOutcome → Except Bool (List FileAndHash)
  | .returned files _ => .ok files
  | .croaked => .error true
  | .outOfFuel => .error false

end Tundra
