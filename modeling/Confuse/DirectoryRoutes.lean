import Confuse.PathRoutes

/-!
# Directory listings

The loops over the entries of a listing stop at the first entry that the caller refuses and return
the offset of the last accepted one; a name that has no UTF-16 C string ends a loop with an error.
-/

namespace Confuse

open Interaction PathResolver

def directoryIno (pf : Platform) (req : Request) (pathKey : Str) (context : AdapterContext) :
    Routine (Except NtStatus INodeNo) :=
  match (inoFromContextOrPath context).filter fun ino => ino ≠ ⟨0⟩ with
  | some ino => pure (.ok ino)
  | none => do
      match ← resolvePathIno pf req (.new pathKey) with
      | .error err => pure (.error (errnoToNtstatus err))
      | .ok ino => pure (.ok ino)

def directoryOffset (pathKey : Str) : Routine Int64 := .openState (.directoryOffset pathKey)

def rememberDirectoryOffset (pathKey : Str) (reqOffset : Int64) (emittedOffset : Option Int64) :
    Routine Unit :=
  .openState (.insertOffset pathKey (advanceOffsetOnEmitted reqOffset emittedOffset))

def readdirEntryAttr (req : Request) (ino : INodeNo) : Routine (Option FileAttr) := do
  let status : Reply ReplyAttrPayload ← Routine.fs (.getattr req ino none)
  match status with
  | some (.ok payload) => pure (some payload.attr)
  | some (.error _) => pure none
  | none => pure none

def emitReaddirEntries (req : Request) (emittedOffset : Option Int64) :
    List DirectoryEntryPayload → Routine (Except NtStatus (Option Int64))
  | [] => pure (.ok emittedOffset)
  | entry :: rest => do
      let attr ← readdirEntryAttr req entry.ino
      match U16CStr.fromStr entry.name.toStringLossy with
      | none => pure (.error STATUS_NOT_IMPLEMENTED)
      | some fileName => do
          let accepted ← Routine.fillFindData {
            attributes := findFilesAttrFromKindAndPerm entry.kind (attr.map FileAttr.perm)
            creationTime := SystemTime.UNIX_EPOCH
            lastAccessTime := SystemTime.UNIX_EPOCH
            lastWriteTime := SystemTime.UNIX_EPOCH
            fileSize := 0
            fileName }
          if accepted then emitReaddirEntries req (some entry.offset.toInt64) rest
          else pure (.ok emittedOffset)

def emitReaddirPatternEntries (pf : Platform) (req : Request) (pattern : U16CStr)
    (emittedOffset : Option Int64) :
    List DirectoryEntryPayload → Routine (Except NtStatus (Option Int64))
  | [] => pure (.ok emittedOffset)
  | entry :: rest =>
      match U16CStr.fromStr entry.name.toStringLossy with
      | none => pure (.error STATUS_NOT_IMPLEMENTED)
      | some fileName =>
          if !pf.isNameInExpression pattern fileName true then
            emitReaddirPatternEntries pf req pattern emittedOffset rest
          else do
            let attr ← readdirEntryAttr req entry.ino
            let accepted ← Routine.fillFindData {
              attributes := findFilesAttrFromKindAndPerm entry.kind (attr.map FileAttr.perm)
              creationTime := attr.elim SystemTime.UNIX_EPOCH FileAttr.ctime
              lastAccessTime := attr.elim SystemTime.UNIX_EPOCH FileAttr.atime
              lastWriteTime := attr.elim SystemTime.UNIX_EPOCH FileAttr.mtime
              fileSize := attr.elim 0 FileAttr.size
              fileName }
            if accepted then
              emitReaddirPatternEntries pf req pattern (some entry.offset.toInt64) rest
            else pure (.ok emittedOffset)

def emitReaddirplusPatternEntries (pf : Platform) (req : Request) (fileName pattern : U16CStr)
    (ino : INodeNo) (emittedOffset : Option Int64) :
    List DirectoryPlusEntryPayload → Routine (Except NtStatus (Option Int64))
  | [] => pure (.ok emittedOffset)
  | entry :: rest =>
      match U16CStr.fromStr (joinChildPath fileName entry.name) with
      | none => pure (.error STATUS_NOT_IMPLEMENTED)
      | some path => do
          rememberCreatedPath req {
            path, parent := ino, name := entry.name, attr := entry.attr
            generation := entry.generation, ttl := entry.ttl }
          match U16CStr.fromStr entry.name.toStringLossy with
          | none => pure (.error STATUS_NOT_IMPLEMENTED)
          | some name =>
              if !pf.isNameInExpression pattern name true then
                emitReaddirplusPatternEntries pf req fileName pattern ino emittedOffset rest
              else do
                let accepted ← Routine.fillFindData {
                  attributes := filetypeToWindowsAttr entry.attr.kind entry.attr.perm
                  creationTime := entry.attr.ctime
                  lastAccessTime := entry.attr.atime
                  lastWriteTime := entry.attr.mtime
                  fileSize := entry.attr.size
                  fileName := name }
                if accepted then
                  emitReaddirplusPatternEntries pf req fileName pattern ino
                    (some entry.offset.toInt64) rest
                else pure (.ok emittedOffset)

end Confuse
