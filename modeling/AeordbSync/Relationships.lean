import AeordbSync.Library.OsPath
import AeordbSync.Errors

namespace AeordbSync
open Characters OsPath

inductive SyncDirection where
  | bidirectional
  | pullOnly
  | pushOnly
  deriving DecidableEq

structure DeletePropagation where
  localToRemote : Bool
  remoteToLocal : Bool
  deriving DecidableEq

structure SyncRelationship where
  id : Text
  name : Text
  remoteConnectionId : Text
  remotePath : Text
  localPath : Text
  direction : SyncDirection
  filter : Option Text
  deletePropagation : DeletePropagation
  enabled : Bool
  deriving DecidableEq

namespace SyncRelationship

def localBase (relationship : SyncRelationship) : PathBuf := ofText (osText relationship.localPath)

end SyncRelationship

def replaceBackslashes (path : Text) : Text := path.map fun c => if c = '\\' then '/' else c

/-- The stored form of a remote path starts and ends with a separator. -/
def normalizeRemotePath (path : Text) : Text :=
  let replaced := replaceBackslashes path
  let rooted := if replaced.head? = some '/' then replaced else '/' :: replaced
  if rooted.getLast? = some '/' then rooted else rooted ++ ['/']

/-- These relationships own a part of the remote tree below the relationship. -/
def childExclusions (relationship : SyncRelationship) (others : List SyncRelationship) : List Text :=
  others.filterMap fun other =>
    if other.id = relationship.id then none
    else if other.remoteConnectionId ≠ relationship.remoteConnectionId then none
    else if relationship.remotePath <+: other.remotePath ∧
        other.remotePath ≠ relationship.remotePath then some other.remotePath
    else none

def isExcludedByChild (remotePath : Text) (exclusions : List Text) : Bool :=
  exclusions.any fun exclusion => exclusion.isPrefixOf remotePath

def childLocalExclusions (relationship : SyncRelationship) (others : List SyncRelationship) :
    List PathBuf :=
  others.filterMap fun other =>
    if other.id = relationship.id then none
    else if other.remoteConnectionId ≠ relationship.remoteConnectionId then none
    else if components other.localBase ≠ components relationship.localBase ∧
        startsWith other.localBase relationship.localBase = true then some other.localBase
    else none

def isLocalExcludedByChild (path : PathBuf) (exclusions : List PathBuf) : Bool :=
  exclusions.any fun exclusion => startsWith path exclusion

theorem isExcludedByChild_iff {remotePath : Text} {exclusions : List Text} :
    isExcludedByChild remotePath exclusions = true ↔
      ∃ exclusion ∈ exclusions, exclusion <+: remotePath := by
  simp [isExcludedByChild]

theorem isLocalExcludedByChild_iff {path : PathBuf} {exclusions : List PathBuf} :
    isLocalExcludedByChild path exclusions = true ↔
      ∃ exclusion ∈ exclusions, components exclusion <+: components path := by
  simp [isLocalExcludedByChild, startsWith_iff]

/-- What lies below an excluded directory is excluded. -/
theorem isLocalExcludedByChild_below {base : PathBuf} {exclusions : List PathBuf}
    {names more : List OsText} (valid : ∀ name ∈ names ++ more, IsName name)
    (excluded : isLocalExcludedByChild (below base names) exclusions = true) :
    isLocalExcludedByChild (below base (names ++ more)) exclusions = true := by
  rw [isLocalExcludedByChild_iff] at *
  obtain ⟨exclusion, inside, above⟩ := excluded
  refine ⟨exclusion, inside, above.trans ?_⟩
  rw [components_below base valid,
    components_below base fun name early => valid name (List.mem_append_left _ early)]
  simp

structure FilterPattern where
  pattern : Text
  exclude : Bool

def filterPatternOf (pattern : Text) : FilterPattern :=
  match pattern with
  | '!' :: stripped => ⟨trim stripped, true⟩
  | _ => ⟨pattern, false⟩

def parseFilter (filter : Text) : List FilterPattern :=
  (((filter.splitOn ',').map trim).filter (· ≠ [])).map filterPatternOf

/-- The glob language is that of another library. -/
def matchesFilter (globMatch : Text → Text → Bool) (filename : Text) (filter : Option Text) : Bool :=
  match filter with
  | none => true
  | some [] => true
  | some filter =>
      let patterns := parseFilter filter
      let includes := patterns.filter fun p => !p.exclude
      let excludes := patterns.filter fun p => p.exclude
      if excludes.any fun p => globMatch p.pattern filename then false
      else if includes.isEmpty then true
      else includes.any fun p => globMatch p.pattern filename

end AeordbSync
