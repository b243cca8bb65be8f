import UnityCommon.Lib.Loop
import UnityCommon.PPtr.Path
import UnityCommon.SerializedFile.Records

/-!
# The PPtr resolver

`unity_pptr_resolve` on the POSIX build. A node's file is `none` when the
pointer is NULL or the file is structurally invalid. `SIZE_MAX` indices and NULL
result pointers are `none`. The ancestor walk of `resolve_loose` is a fuelled
loop, because nothing in the source bounds it.
-/

namespace UnityCommon.PPtr

inductive ResolveStatus where
  | localFile
  | externalExact
  | externalBuiltinContract
  | null
  | outOfScope
  | ambiguous
  | invalidFileId
  | targetMissing
  | targetWrongClass
deriving DecidableEq, Repr

structure SourceNode where
  file : Option SerializedFile
  outerPath : Option CString
  memberName : Option CString
  isBundleMember : Bool
  scopeRoot : Option CString
  hasAssetGuid : Bool
  assetGuid : Bytes16
deriving DecidableEq, Repr

structure ResolverGraph where
  nodes : List SourceNode
deriving DecidableEq, Repr

structure ResolveResult where
  status : ResolveStatus
  sourceIndex : Option ℕ
  targetIndex : Option ℕ
  externalIndex : Option ℕ
  external : Option AssetFileExternal
  object : Option AssetObjectInfo
deriving DecidableEq, Repr

/-- `unity_pptr_resolve_result_init`. -/
def ResolveResult.init : ResolveResult :=
  ⟨.outOfScope, none, none, none, none, none⟩

/-- `UNITY_PPTR_TARGET_CLASS_ANY`. -/
def targetClassAny : Int32 := Int32.minValue

/-! ## Targets -/

def guidMatchesNode (external : AssetFileExternal) (node : SourceNode) : Bool :=
  external.guid == Bytes16.zero ||
    (node.hasAssetGuid && external.guid == node.assetGuid)

def findObject (file : Option SerializedFile) (pathId : Int64) : Option AssetObjectInfo :=
  file.bind fun f => f.objects.find? (·.pathId == pathId)

def finishTarget (result : ResolveResult) (graph : ResolverGraph) (targetIndex : ℕ)
    (pathId : Int64) (expectedClassId : Int32) (successStatus : ResolveStatus) :
    ResolveResult :=
  let result := { result with targetIndex := some targetIndex }
  match findObject (graph.nodes[targetIndex]?.bind (·.file)) pathId with
  | none => { result with status := .targetMissing }
  | some object =>
      let result := { result with object := some object }
      if expectedClassId ≠ targetClassAny ∧ object.typeId ≠ expectedClassId then
        { result with status := .targetWrongClass }
      else { result with status := successStatus }

/-! ## Locators and scopes -/

def archiveScheme : Text := ascii "archive:/"

def hasArchivePrefix (value : Option CString) : Bool :=
  match value with
  | some v => archiveScheme.isPrefixOf v.bytes
  | none => false

def archivePayload (value : CString) : Text := value.bytes.drop archiveScheme.length

/-- `archive_locator`: the member locator both archive fields agree on. -/
def archiveLocator (external : AssetFileExternal) : Option Text :=
  let virtualArchive := hasArchivePrefix external.virtualPath
  let pathArchive := hasArchivePrefix external.pathName
  if !virtualArchive && !pathArchive then none
  else
    match external.pathName with
    | none => none
    | some pathName =>
        let virtualPayload :=
          match external.virtualPath with
          | some v => if virtualArchive then archivePayload v else []
          | none => []
        let pathPayload := if pathArchive then archivePayload pathName else pathName.bytes
        if virtualPayload.length = 0 then
          if pathPayload.length = 0 ∨ maxLocatorBytes < pathPayload.length then none
          else some pathPayload
        else if pathArchive then
          match normalizePath virtualPayload, normalizePath pathPayload with
          | some left, some right => if normalizedEqual left right then some left.text else none
          | _, _ => none
        else if pathPayload.length = 0 ∨
            maxLocatorBytes < virtualPayload.length + pathPayload.length + 1 then none
        else some (virtualPayload ++ slash :: pathPayload)

/-- `normalized_node_scope`: the node's scope root and outer path. -/
def normalizedNodeScope (node : SourceNode) : Option (NormalizedPath × NormalizedPath) :=
  match node.scopeRoot, node.outerPath with
  | some scopeRoot, some outerPath =>
      match normalizePath scopeRoot.bytes with
      | none => none
      | some root =>
          match normalizePath outerPath.bytes with
          | none => none
          | some outer => if pathIsWithin outer root then some (root, outer) else none
  | _, _ => none

/-- `node_shares_scope`: the candidate's outer path, when its root is the
source's root. -/
def nodeSharesScope (node : SourceNode) (sourceRoot : NormalizedPath) :
    Option NormalizedPath :=
  match normalizedNodeScope node with
  | some (candidateRoot, candidateOuter) =>
      if normalizedEqual sourceRoot candidateRoot then some candidateOuter else none
  | none => none

inductive BuiltinContract where
  | none
  | extra
  | defaultResources
  | invalid
deriving DecidableEq, Repr

def contractGuid (tag : UInt8) : Bytes16 :=
  ⟨List.replicate 8 0 ++ tag :: List.replicate 7 0, by simp⟩

def extraGuid : Bytes16 := contractGuid 0x0f
def defaultResourcesGuid : Bytes16 := contractGuid 0x0e

/-- `builtin_contract`, with the target locator it hands out. -/
def builtinContract (external : AssetFileExternal) : BuiltinContract × Option Text :=
  match external.pathName, external.virtualPath with
  | some pathName, some virtualPath =>
      if virtualPath.bytes ≠ [] then (.none, none)
      else if pathName.bytes = ascii "Resources/unity_builtin_extra" then
        if external.type ≠ 0 ∨ external.guid ≠ extraGuid then (.invalid, none)
        else (.extra, some (ascii "Resources/unity_builtin_extra"))
      else if pathName.bytes = ascii "Library/unity default resources" then
        if external.type ≠ 0 ∨ external.guid ≠ defaultResourcesGuid then (.invalid, none)
        else (.defaultResources, some (ascii "Resources/unity default resources"))
      else (.none, none)
  | _, _ => (.none, none)

/-- The indices a candidate loop counts, in node order. -/
def matchingIndices (graph : ResolverGraph) (candidate : SourceNode → Bool) : List ℕ :=
  (graph.nodes.zipIdx.filter fun entry => candidate entry.1).map Prod.snd

/-! ## The archive route -/

def archiveCandidate (external : AssetFileExternal)
    (sourceRoot sourceOuter wantedMember : NormalizedPath) (candidate : SourceNode) : Bool :=
  match candidate.memberName with
  | none => false
  | some memberName =>
      candidate.isBundleMember && guidMatchesNode external candidate &&
        match nodeSharesScope candidate sourceRoot with
        | none => false
        | some candidateOuter =>
            normalizedEqual candidateOuter sourceOuter &&
              match normalizePath memberName.bytes with
              | none => false
              | some candidateMember => normalizedEqual candidateMember wantedMember

def resolveArchive (graph : ResolverGraph) (source : SourceNode)
    (external : AssetFileExternal) (pathId : Int64) (expectedClassId : Int32)
    (result : ResolveResult) : ResolveResult :=
  let outOfScope := { result with status := .outOfScope }
  match archiveLocator external with
  | none => outOfScope
  | some locator =>
      if !source.isBundleMember || source.outerPath.isNone || source.scopeRoot.isNone then
        outOfScope
      else
        match normalizePath locator, normalizedNodeScope source with
        | some wantedMember, some (sourceRoot, sourceOuter) =>
            if wantedMember.absolute then outOfScope
            else
              match matchingIndices graph
                  (archiveCandidate external sourceRoot sourceOuter wantedMember) with
              | [] => outOfScope
              | [target] =>
                  finishTarget result graph target pathId expectedClassId .externalExact
              | _ => { result with status := .ambiguous }
        | _, _ => outOfScope

/-! ## The loose route -/

/-- What `resolve_loose` is called with. -/
structure LooseCall where
  external : AssetFileExternal
  locator : Text
  isBuiltin : Bool
  pathId : Int64
  expectedClassId : Int32
  result : ResolveResult
deriving DecidableEq, Repr

/-- The scope root and the first directory of the walk, when every check
before the loop passes. -/
def looseStart (source : SourceNode) (locator : Text) :
    Option (NormalizedPath × NormalizedPath) :=
  match normalizedNodeScope source with
  | none => none
  | some (sourceRoot, sourceOuter) =>
      match parentPath sourceOuter, normalizePath locator with
      | some sourceDirectory, some normalizedLocator =>
          if normalizedLocator.absolute ∨ (2 ≤ normalizedLocator.text.length ∧
              normalizedLocator.text[1]? = some colon) then none
          else some (sourceRoot, sourceDirectory)
      | _, _ => none

def looseCandidate (call : LooseCall) (sourceRoot wanted : NormalizedPath)
    (candidate : SourceNode) : Bool :=
  !candidate.isBundleMember && (call.isBuiltin || guidMatchesNode call.external candidate) &&
    match nodeSharesScope candidate sourceRoot with
    | none => false
    | some candidateOuter => normalizedEqual candidateOuter wanted

def looseSuccess (call : LooseCall) : ResolveStatus :=
  if call.isBuiltin then .externalBuiltinContract else .externalExact

/-- The end of one round that selected nothing: stop, or go to the parent. -/
def looseAscend (call : LooseCall) (sourceRoot sourceDirectory : NormalizedPath) :
    Loop.Outcome NormalizedPath ResolveResult :=
  let stop := .done { call.result with status := .outOfScope }
  if normalizedEqual sourceDirectory sourceRoot then stop
  else
    match parentPath sourceDirectory with
    | none => stop
    | some parent => if pathIsWithin parent sourceRoot then .again parent else stop

/-- One round of the ancestor walk. -/
def looseRound (graph : ResolverGraph) (call : LooseCall)
    (sourceRoot sourceDirectory : NormalizedPath) :
    Loop.Outcome NormalizedPath ResolveResult :=
  if !pathIsWithin sourceDirectory sourceRoot then
    .done { call.result with status := .outOfScope }
  else
    match joinPath sourceDirectory call.locator with
    | none => .done { call.result with status := .outOfScope }
    | some wanted =>
        if pathIsWithin wanted sourceRoot then
          match matchingIndices graph (looseCandidate call sourceRoot wanted) with
          | [] => looseAscend call sourceRoot sourceDirectory
          | [target] =>
              .done (finishTarget call.result graph target call.pathId call.expectedClassId
                (looseSuccess call))
          | _ => .done { call.result with status := .ambiguous }
        else looseAscend call sourceRoot sourceDirectory

def resolveLoose (fuel : ℕ) (graph : ResolverGraph) (source : SourceNode)
    (call : LooseCall) : Option ResolveResult :=
  match looseStart source call.locator with
  | none => some { call.result with status := .outOfScope }
  | some (sourceRoot, sourceDirectory) =>
      Loop.run (looseRound graph call sourceRoot) fuel sourceDirectory

/-! ## Dispatch -/

/-- What `unity_pptr_resolve` does after its own checks: it is finished, with
its Boolean return value, or it calls one of the two routes. -/
inductive Route where
  | finished (ok : Bool) (result : ResolveResult)
  | archive (source : SourceNode) (external : AssetFileExternal) (result : ResolveResult)
  | loose (source : SourceNode) (call : LooseCall)
deriving DecidableEq, Repr

def routeExternal (source : SourceNode) (external : AssetFileExternal) (pathId : Int64)
    (expectedClassId : Int32) (result : ResolveResult) : Route :=
  let outOfScope := Route.finished true { result with status := .outOfScope }
  match external.pathName, external.virtualPath with
  | some pathName, some virtualPath =>
      if pathName.bytes = [] then outOfScope
      else if hasArchivePrefix (some virtualPath) || hasArchivePrefix (some pathName) then
        .archive source external result
      else if virtualPath.bytes ≠ [] then outOfScope
      else
        match builtinContract external with
        | (.invalid, _) => outOfScope
        | (.none, _) =>
            .loose source ⟨external, pathName.bytes, false, pathId, expectedClassId, result⟩
        | (_, target) =>
            .loose source ⟨external, target.getD [], true, pathId, expectedClassId, result⟩
  | _, _ => outOfScope

def route (graph : ResolverGraph) (sourceIndex : ℕ) (pointer : AssetPPtr)
    (expectedClassId : Int32) : Route :=
  match graph.nodes[sourceIndex]? with
  | none => .finished false .init
  | some source =>
      match source.file with
      | none => .finished false .init
      | some sourceFile =>
          let result := { ResolveResult.init with sourceIndex := some sourceIndex }
          if pointer.pathId = 0 then .finished true { result with status := .null }
          else if pointer.fileId < 0 then
            .finished true { result with status := .invalidFileId }
          else if pointer.fileId = 0 then
            .finished true (finishTarget result graph sourceIndex pointer.pathId
              expectedClassId .localFile)
          else
            let externalIndex := pointer.fileId.toNatClampNeg - 1
            match sourceFile.externals[externalIndex]? with
            | none => .finished true { result with status := .invalidFileId }
            | some external =>
                routeExternal source external pointer.pathId expectedClassId
                  { result with
                    externalIndex := some externalIndex
                    external := some external }

/-- `unity_pptr_resolve`: `none` when the walk did not end within the fuel,
else the return value and the result record. -/
def unityPPtrResolve (fuel : ℕ) (graph : ResolverGraph) (sourceIndex : ℕ)
    (pointer : AssetPPtr) (expectedClassId : Int32) : Option (Bool × ResolveResult) :=
  match route graph sourceIndex pointer expectedClassId with
  | .finished ok result => some (ok, result)
  | .archive source external result =>
      some (true, resolveArchive graph source external pointer.pathId expectedClassId result)
  | .loose source call => (resolveLoose fuel graph source call).map (true, ·)

end UnityCommon.PPtr
