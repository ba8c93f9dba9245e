import Tundra.HashTable

/-!
# The digest cache

`DigestCache.cpp`: the digests of file contents, by file name, with the timestamp of the file.
-/

namespace Tundra

structure DigestCacheRecord where
  contentDigest : HashDigest
  timestamp : UInt64
  accessTime : UInt64
deriving DecidableEq

/-- `m_Table` and `m_AccessTime` of a `DigestCache`. -/
structure DigestCache where
  table : HashTable DigestCacheRecord
  accessTime : UInt64

namespace DigestCache

/-- `DigestCacheGet`. A record that is used gets a new access time. -/
def get (self : DigestCache) (filename : CString) (hash : UInt32) (timestamp : UInt64) :
    Option HashDigest × DigestCache :=
  match self.table.lookup hash filename with
  | some r =>
      if r.timestamp = timestamp then
        (some r.contentDigest, { self with table := self.table.modify hash filename fun r => { r with accessTime := self.accessTime } })
      else (none, self)
  | none => (none, self)

/-- `DigestCacheSet`. -/
def set (self : DigestCache) (filename : CString) (hash : UInt32) (timestamp : UInt64) (digest : HashDigest) :
    DigestCache :=
  let record : DigestCacheRecord := ⟨digest, timestamp, self.accessTime⟩
  match self.table.lookup hash filename with
  | some _ => { self with table := self.table.modify hash filename fun _ => record }
  | none => { self with table := self.table.insert hash filename record }

end DigestCache

end Tundra
