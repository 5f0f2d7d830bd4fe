import AeordbSync.Library.Characters

namespace OsPath
open Characters

/-- One scalar of an operating-system string, or one maximal run of bytes that is not UTF-8. -/
inductive OsUnit where
  | char (c : Char)
  | invalid (bytes : Bytes)
  deriving DecidableEq

abbrev OsText := List OsUnit

def osText (t : Text) : OsText := t.map OsUnit.char

def OsUnit.toChar? : OsUnit → Option Char
  | .char c => some c
  | .invalid _ => none

/-- The lossy reading replaces each invalid run by the replacement character. -/
def OsUnit.lossy : OsUnit → Char
  | .char c => c
  | .invalid _ => '\uFFFD'

def toStr? (t : OsText) : Option Text := t.mapM OsUnit.toChar?

def toStringLossy (t : OsText) : Text := t.map OsUnit.lossy

def slash : OsUnit := .char '/'

def nul : OsUnit := .char '\u0000'

def dot : OsText := [.char '.']

/-- A path is its text, cut at the separators. -/
abbrev PathBuf := List OsText

def ofText (t : OsText) : PathBuf := t.splitOn slash

def isAbsolute : PathBuf → Bool
  | [] :: _ :: _ => true
  | _ => false

inductive Component where
  | rootDir
  | curDir
  | parentDir
  | normal (name : OsText)
  deriving DecidableEq

/-- Empty and dot segments inside a path are not components. -/
def componentOf (segment : OsText) : Option Component :=
  if segment = [] then none
  else if segment = dot then none
  else if segment = dot ++ dot then some .parentDir
  else some (.normal segment)

/-- Only a leading dot of a relative path is a component. -/
def components (p : PathBuf) : List Component :=
  if isAbsolute p then .rootDir :: p.filterMap componentOf
  else if p.head? = some dot then .curDir :: p.filterMap componentOf
  else p.filterMap componentOf

def Component.text : Component → OsText
  | .rootDir => []
  | .curDir => dot
  | .parentDir => dot ++ dot
  | .normal name => name

def ofComponents : List Component → PathBuf
  | [] => [[]]
  | [.rootDir] => [[], []]
  | cs => cs.map Component.text

/-- A trailing separator is not doubled. -/
def openEnd (p : PathBuf) : PathBuf := if p.getLast? = some [] then p.dropLast else p

def join (base : PathBuf) (t : OsText) : PathBuf :=
  if isAbsolute (ofText t) then ofText t else openEnd base ++ ofText t

/-- The suffix extends the text of the path. -/
def pushText (p : PathBuf) (suffix : OsText) : PathBuf :=
  match p.getLast? with
  | none => [suffix]
  | some last => p.dropLast ++ [last ++ suffix]

def stripPrefix (p base : PathBuf) : Option (List Component) :=
  if components base <+: components p then some ((components p).drop (components base).length)
  else none

def startsWith (p base : PathBuf) : Bool := decide (components base <+: components p)

def parent (p : PathBuf) : Option PathBuf :=
  match (components p).getLast? with
  | none => none
  | some .rootDir => none
  | some _ => some (ofComponents (components p).dropLast)

def fileName (p : PathBuf) : Option OsText :=
  match (components p).getLast? with
  | some (.normal name) => some name
  | _ => none

/-- The extension follows the last dot of a name that does not start with it. -/
def extension (p : PathBuf) : Option OsText :=
  match fileName p with
  | none => none
  | some name =>
      let after := name.rtakeWhile (· ≠ .char '.')
      let before := name.take (name.length - after.length - 1)
      if after.length = name.length ∨ before = [] then none else some after

/-- A name that one directory entry can have. -/
def IsName (name : OsText) : Prop :=
  name ≠ [] ∧ name ≠ dot ∧ name ≠ dot ++ dot ∧ slash ∉ name ∧ nul ∉ name

instance (name : OsText) : Decidable (IsName name) := inferInstanceAs (Decidable (_ ∧ _))

/-- The path of an entry that a walk reaches from its base. -/
def below (base : PathBuf) (names : List OsText) : PathBuf :=
  match names with
  | [] => base
  | _ :: _ => openEnd base ++ names

theorem ofText_name {name : OsText} (valid : IsName name) : ofText name = [name] := by
  have free : ∀ t ∈ [name], slash ∉ t := by
    intro t inside
    rw [List.mem_singleton.mp inside]
    exact valid.2.2.2.1
  have split := List.splitOn_intercalate slash free (by simp)
  simpa [List.intercalate, ofText] using split

theorem isAbsolute_singleton (t : OsText) : isAbsolute [t] = false := by
  cases t <;> rfl

theorem componentOf_name {name : OsText} (valid : IsName name) :
    componentOf name = some (.normal name) := by
  obtain ⟨nonempty, notDot, notParent, -⟩ := valid
  simp [componentOf, nonempty, notDot, notParent]

theorem filterMap_names {names : List OsText} (valid : ∀ name ∈ names, IsName name) :
    names.filterMap componentOf = names.map .normal := by
  induction names with
  | nil => rfl
  | cons name rest ih =>
      have head := componentOf_name (valid name (List.mem_cons_self ..))
      have tail := ih fun other inside => valid other (List.mem_cons_of_mem _ inside)
      simp [head, tail]

theorem join_name (base : PathBuf) {name : OsText} (valid : IsName name) :
    join base name = openEnd base ++ [name] := by
  rw [join, ofText_name valid, isAbsolute_singleton]
  rfl

theorem openEnd_concat (p : PathBuf) {t : OsText} (nonempty : t ≠ []) :
    openEnd (p ++ [t]) = p ++ [t] := by
  simp [openEnd, nonempty]

/-- Joining one name to a reached path reaches the entry below it. -/
theorem join_below (base : PathBuf) {names : List OsText} {name : OsText}
    (valid : ∀ other ∈ names, IsName other) (named : IsName name) :
    join (below base names) name = below base (names ++ [name]) := by
  rw [join_name _ named]
  rcases List.eq_nil_or_concat names with rfl | ⟨front, last, rfl⟩
  · rfl
  · have nonempty : last ≠ [] := (valid last (by simp)).1
    have inside : below base (front ++ [last]) = openEnd base ++ front ++ [last] := by
      cases front <;> simp [below]
    have outside : below base (front ++ [last] ++ [name]) =
        openEnd base ++ front ++ [last] ++ [name] := by
      cases front <;> simp [below]
    rw [List.concat_eq_append, inside, outside, openEnd_concat _ nonempty]

theorem openEnd_cases (base : PathBuf) :
    (∃ front, base = front ++ [[]] ∧ openEnd base = front) ∨
      (base.getLast? ≠ some [] ∧ openEnd base = base) := by
  unfold openEnd
  split
  next last =>
    obtain ⟨front, rfl⟩ := List.getLast?_eq_some_iff.mp last
    exact Or.inl ⟨front, rfl, List.dropLast_concat⟩
  next last => exact Or.inr ⟨last, rfl⟩

theorem isAbsolute_openEnd (base : PathBuf) {first : OsText} (rest : PathBuf)
    (nonempty : first ≠ []) : isAbsolute (openEnd base ++ first :: rest) = isAbsolute base := by
  rcases openEnd_cases base with ⟨front, rfl, equal⟩ | ⟨last, equal⟩
  · rw [equal]
    rcases front with _ | ⟨a, _ | ⟨b, more⟩⟩
    · cases first with
      | nil => exact absurd rfl nonempty
      | cons unit tail => rfl
    · cases a <;> rfl
    · cases a <;> rfl
  · rw [equal]
    rcases base with _ | ⟨a, _ | ⟨b, more⟩⟩
    · cases first with
      | nil => exact absurd rfl nonempty
      | cons unit tail => rfl
    · cases a with
      | nil => exact absurd rfl last
      | cons unit tail => rfl
    · cases a <;> rfl

theorem head_openEnd (base : PathBuf) {first : OsText} (rest : PathBuf) (notDot : first ≠ dot) :
    (openEnd base ++ first :: rest).head? = some dot ↔ base.head? = some dot := by
  rcases openEnd_cases base with ⟨front, rfl, equal⟩ | ⟨-, equal⟩
  · rw [equal]
    cases front with
    | nil =>
        have empty : ([] : OsText) ≠ dot := by decide
        simp [notDot, empty]
    | cons a more => simp
  · rw [equal]
    cases base with
    | nil => simp [notDot]
    | cons a more => simp

theorem filterMap_openEnd (base : PathBuf) :
    (openEnd base).filterMap componentOf = base.filterMap componentOf := by
  rcases openEnd_cases base with ⟨front, rfl, equal⟩ | ⟨-, equal⟩
  · simp [equal, componentOf]
  · rw [equal]

/-- The names below a base follow the components of the base. -/
theorem components_below (base : PathBuf) {names : List OsText}
    (valid : ∀ name ∈ names, IsName name) :
    components (below base names) = components base ++ names.map .normal := by
  cases names with
  | nil => simp [below]
  | cons first rest =>
      have head := valid first (List.mem_cons_self ..)
      have absolute := isAbsolute_openEnd base rest head.1
      have leading := head_openEnd base rest head.2.1
      have tail := filterMap_names valid
      simp only [components, below, absolute, leading, List.filterMap_append, filterMap_openEnd, tail]
      split
      · rfl
      · split <;> rfl

theorem stripPrefix_below (base : PathBuf) {names : List OsText}
    (valid : ∀ name ∈ names, IsName name) :
    stripPrefix (below base names) base = some (names.map .normal) := by
  simp [stripPrefix, components_below base valid]

theorem startsWith_iff {p base : PathBuf} :
    startsWith p base = true ↔ components base <+: components p := by
  simp [startsWith]

theorem below_injective (base : PathBuf) {first second : List OsText}
    (left : ∀ name ∈ first, IsName name) (right : ∀ name ∈ second, IsName name)
    (equal : below base first = below base second) : first = second := by
  have same := congrArg components equal
  rw [components_below base left, components_below base right] at same
  exact List.map_injective_iff.mpr (fun a b eq => by injection eq) (List.append_cancel_left same)

theorem of_componentOf {segment : OsText} {c : Component} (found : componentOf segment = some c) :
    componentOf c.text = some c ∧ c.text ≠ [] ∧ c.text ≠ dot := by
  unfold componentOf at found
  split at found
  · cases found
  next some =>
    split at found
    · cases found
    next notDot =>
      split at found
      · cases found
        decide
      next notParent =>
        cases found
        exact ⟨by simp [componentOf, Component.text, some, notDot, notParent], some, notDot⟩

/-- The text of inner components is read as these components. -/
theorem filterMap_text {cs : List Component} (inner : ∀ c ∈ cs, componentOf c.text = some c) :
    (cs.map Component.text).filterMap componentOf = cs := by
  induction cs with
  | nil => rfl
  | cons c rest ih =>
      rw [List.map_cons, List.filterMap_cons_some (inner c (List.mem_cons_self ..)),
        ih fun other inside => inner other (List.mem_cons_of_mem _ inside)]

/-- The first components of a path are the components of a path. -/
theorem components_ofComponents {p : PathBuf} {front : List Component} (first : front <+: components p) :
    components (ofComponents front) = front := by
  have inner : ∀ c ∈ p.filterMap componentOf, componentOf c.text = some c ∧ c.text ≠ [] ∧ c.text ≠ dot := by
    intro c inside
    obtain ⟨segment, -, found⟩ := List.mem_filterMap.mp inside
    exact of_componentOf found
  have tail : ∀ {more : List Component}, more <+: p.filterMap componentOf →
      (more.map Component.text).filterMap componentOf = more :=
    fun before => filterMap_text fun c inside => (inner c (before.subset inside)).1
  cases front with
  | nil => decide
  | cons c more =>
      unfold components at first
      split at first
      · obtain ⟨rfl, rest⟩ := List.cons_prefix_cons.mp first
        cases more with
        | nil => decide
        | cons second others =>
            show components ([] :: second.text :: others.map Component.text) = _
            have same : (second.text :: others.map Component.text).filterMap componentOf = second :: others := tail rest
            have empty : componentOf [] = none := by decide
            have absolute : isAbsolute ([] :: second.text :: others.map Component.text) = true := rfl
            rw [components, if_pos absolute, List.filterMap_cons_none empty, same]
      · split at first
        · obtain ⟨rfl, rest⟩ := List.cons_prefix_cons.mp first
          show components (dot :: more.map Component.text) = _
          have relative : isAbsolute (dot :: more.map Component.text) = false := rfl
          have skipped : componentOf dot = none := by decide
          have dotted : (dot :: more.map Component.text).head? = some dot := rfl
          rw [components, relative, if_neg Bool.false_ne_true, if_pos dotted, List.filterMap_cons_none skipped, tail rest]
        · have known := inner c (first.subset (List.mem_cons_self ..))
          have form : ofComponents (c :: more) = (c :: more).map Component.text := by
            cases c with
            | rootDir => exact absurd rfl known.2.1
            | _ => rfl
          have relative : isAbsolute ((c :: more).map Component.text) = false := by
            rw [List.map_cons]
            cases text : c.text with
            | nil => exact absurd text known.2.1
            | cons unit units => rfl
          rw [form, components, relative, if_neg Bool.false_ne_true, if_neg (by simpa using known.2.2), tail first]

theorem components_parent {p above : PathBuf} (found : parent p = some above) :
    components above = (components p).dropLast := by
  unfold parent at found
  split at found
  · cases found
  · cases found
  · rw [← Option.some.inj found]
    exact components_ofComponents (List.dropLast_prefix _)

theorem toStr?_osText (t : Text) : toStr? (osText t) = some t := by
  induction t with
  | nil => rfl
  | cons c rest ih =>
      have tail : List.mapM OsUnit.toChar? (List.map OsUnit.char rest) = some rest := ih
      simp [toStr?, osText, List.mapM_cons, tail, OsUnit.toChar?]

theorem toStr?_eq_some {t : OsText} {s : Text} : toStr? t = some s ↔ t = osText s := by
  constructor
  · intro valid
    induction t generalizing s with
    | nil =>
        simp only [toStr?, List.mapM_nil, Option.pure_def, Option.some.injEq] at valid
        subst s
        rfl
    | cons unit rest ih =>
        cases unit with
        | invalid bytes => simp [toStr?, List.mapM_cons, OsUnit.toChar?] at valid
        | char c =>
            simp only [toStr?, List.mapM_cons, OsUnit.toChar?, Option.pure_def, Option.bind_eq_bind,
              Option.bind_some] at valid
            obtain ⟨tail, found, equal⟩ := Option.bind_eq_some_iff.mp valid
            have same := ih found
            simp only [Option.some.injEq] at equal
            subst s
            rw [same]
            rfl
  · rintro rfl
    exact toStr?_osText s

/-- Valid text is read without loss. -/
theorem toStringLossy_osText (t : Text) : toStringLossy (osText t) = t := by
  simp [toStringLossy, osText, OsUnit.lossy, Function.comp_def]

theorem osText_injective : Function.Injective osText := by
  intro first second equal
  rw [← toStringLossy_osText first, equal, toStringLossy_osText]

theorem osText_joinWith (parts : List Text) :
    osText (joinWith '/' parts) = [slash].intercalate (parts.map osText) := by
  induction parts with
  | nil => rfl
  | cons first rest ih =>
      cases rest with
      | nil => simp
      | cons second more =>
          have tail : [slash].intercalate (osText first :: osText second :: more.map osText) =
              osText first ++ slash :: [slash].intercalate (osText second :: more.map osText) := by
            simp [List.intercalate]
          rw [List.map_cons] at ih
          rw [joinWith_cons, List.map_cons, List.map_cons, tail, ← ih]
          simp [osText, slash]

/-- The segments of joined names are the names. -/
theorem ofText_intercalate {names : List OsText} (valid : ∀ name ∈ names, IsName name)
    (nonempty : names ≠ []) : ofText ([slash].intercalate names) = names :=
  List.splitOn_intercalate slash (fun name inside => (valid name inside).2.2.2.1) nonempty

example : components (ofText (osText "/a//b/./../c/".toList)) =
    [.rootDir, .normal (osText "a".toList), .normal (osText "b".toList), .parentDir,
      .normal (osText "c".toList)] := by decide

end OsPath
