import Confuse.Helpers

/-!
# Path resolution and cache maintenance

`resolvePathIno` walks the components of a path, asking the cache first and the file system on a
miss, and records what the file system answers.
-/

namespace Confuse

open Interaction PathResolver

structure LookupComponent where
  path : OsStr
  parent : INodeNo
  parentGeneration : Generation
  name : OsStr

def drainResolverForgets (req : Request) : Routine Unit := .deliver req .takePendingForgets

def drainExpiredResolverForgets (req : Request) : Routine Unit := .deliver req .reapExpired

def cachedPathComponent (req : Request) (path : OsStr) (parent : INodeNo)
    (parentGeneration : Generation) : Routine (Except Errno (Option ResolvedEntry)) := do
  let cached : Option (Except Errno ResolvedEntry) ←
    Routine.table (.cached path parent parentGeneration)
  match cached with
  | some (.ok entry) => pure (.ok (some entry))
  | some (.error err) =>
      drainResolverForgets req
      pure (.error err)
  | none => pure (.ok none)

def rememberNegative (component : LookupComponent) : Routine Unit :=
  .table (.rememberNegative component.path component.parent component.parentGeneration
    component.name)

def rememberNegativeLookup (req : Request) (err : Errno) (component : LookupComponent) :
    Routine Unit := do
  if err = ENOENT then
    rememberNegative component
  drainResolverForgets req

def lookupPathComponent (req : Request) (component : LookupComponent) :
    Routine (Except Errno ResolvedEntry) := do
  let status : Reply ReplyEntryPayload ←
    Routine.fs (.lookup req component.parent component.name)
  match status with
  | some (.ok payload) => do
      let entry : ResolvedEntry ← Routine.table (.rememberPositive {
        path := component.path
        parent := component.parent
        parentGeneration := component.parentGeneration
        name := component.name
        attr := payload.attr
        generation := payload.generation
        ttl := payload.ttl })
      pure (.ok entry)
  | some (.error err) => do
      rememberNegativeLookup req err component
      pure (.error err)
  | none => do
      drainResolverForgets req
      pure (.error EIO)

/-- The component that the walk looks for next, below the path walked so far. -/
def walkComponent (currentPath : Str) (current : ResolvedEntry) (component : Str) :
    LookupComponent where
  path := .new (childPathFromParent currentPath component)
  parent := current.ino
  parentGeneration := current.generation
  name := .new component

/-- One turn of the loop of `resolve_path_ino`. -/
def resolveComponent (req : Request) (component : LookupComponent) :
    Routine (Except Errno ResolvedEntry) := do
  match ← cachedPathComponent req component.path component.parent component.parentGeneration with
  | .error err => pure (.error err)
  | .ok (some entry) => pure (.ok entry)
  | .ok none => lookupPathComponent req component

def walkComponents (req : Request) (currentPath : Str) (current : ResolvedEntry) :
    List Str → Routine (Except Errno ResolvedEntry)
  | [] => pure (.ok current)
  | component :: rest => do
      match ← resolveComponent req (walkComponent currentPath current component) with
      | .error err => pure (.error err)
      | .ok entry =>
          walkComponents req (childPathFromParent currentPath component) entry rest

def resolvePathIno (pf : Platform) (req : Request) (path : OsStr) :
    Routine (Except Errno INodeNo) :=
  if normalizePath pf.caseFold path = ['\\'] then pure (.ok .ROOT)
  else do
    drainExpiredResolverForgets req
    match ← walkComponents req ['\\'] ⟨.ROOT, ⟨0⟩⟩ (normalizedComponents path) with
    | .error err => pure (.error err)
    | .ok entry => pure (.ok entry.ino)

def resolveParentIno (pf : Platform) (req : Request) (parentPath : OsStr) :
    Routine (Except Errno INodeNo) := resolvePathIno pf req parentPath

/-- The path of a file name. -/
def U16CStr.path (fileName : U16CStr) : OsStr := .new fileName.toStringLossy

def resolveContextOrPath (pf : Platform) (req : Request) (path : U16CStr)
    (context : AdapterContext) : Routine (Except Errno AdapterContext) :=
  match resolveCtx path context with
  | some ctx => pure (.ok ctx)
  | none => do
      match ← resolvePathIno pf req path.path with
      | .error err => pure (.error err)
      | .ok ino => pure (.ok { ino := ino, requestIds := context.requestIds })

/-- Go on with the resolved context; a failed resolution ends the callback. -/
def withResolved {α : Type} (pf : Platform) (req : Request) (path : U16CStr)
    (context : AdapterContext) (f : AdapterContext → Routine (Except NtStatus α)) :
    Routine (Except NtStatus α) := do
  match ← resolveContextOrPath pf req path context with
  | .error err => pure (.error (errnoToNtstatus err))
  | .ok resolved => f resolved

def invalidatePathCache (req : Request) (path : U16CStr) : Routine Unit :=
  .deliver req (.invalidateSubtree path.path)

def invalidateInodeAttr (ino : INodeNo) : Routine Unit := .table (.invalidateInodeAttr ino)

def invalidateParentAttrForPath (pf : Platform) (req : Request) (path : U16CStr) :
    Routine Unit := do
  match ← resolveParentIno pf req (splitParentAndName path).1 with
  | .error _ => pure ()
  | .ok parentIno => invalidateInodeAttr parentIno

def finishMetadataMutation (pf : Platform) (req : Request) (path : U16CStr) (ino : INodeNo) :
    Routine Unit := do
  invalidateInodeAttr ino
  invalidateParentAttrForPath pf req path
  invalidatePathCache req path

def rememberCreatedPath (req : Request) (created : CreatedPath) : Routine Unit := do
  let _ ← Routine.table (.rememberCreated created)
  drainResolverForgets req

end Confuse
