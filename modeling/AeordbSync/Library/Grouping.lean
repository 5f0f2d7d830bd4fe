import Mathlib.Data.List.AList
import Mathlib.Data.List.Induction

namespace Grouping

variable {ι κ γ δ : Type} [DecidableEq κ]

/-- The entries of a list are added to the groups of their keys, one after the other. -/
def grouped (key : ι → κ) (empty : γ) (add : ι → γ → γ) (entries : List ι) : AList fun _ : κ => γ :=
  entries.foldl (fun groups entry =>
    groups.insert (key entry) (add entry ((groups.lookup (key entry)).getD empty))) ∅

variable {key : ι → κ} {empty : γ} {add : ι → γ → γ}

theorem grouped_append (front : List ι) (last : ι) :
    grouped key empty add (front ++ [last]) =
      (grouped key empty add front).insert (key last)
        (add last (((grouped key empty add front).lookup (key last)).getD empty)) := by
  simp [grouped, List.foldl_append]

/-- A group is made of the entries with its key. -/
theorem lookup_grouped (entries : List ι) (k : κ) :
    ((grouped key empty add entries).lookup k).getD empty =
      (entries.filter fun entry => key entry = k).foldl (fun group entry => add entry group) empty := by
  induction entries using List.reverseRecOn with
  | nil => rfl
  | append_singleton front last ih =>
      rw [grouped_append, List.filter_append, List.foldl_append]
      by_cases same : key last = k
      · subst same
        simp [AList.lookup_insert, ih]
      · rw [AList.lookup_insert_ne (Ne.symm same), ih]
        simp [same]

theorem exists_of_lookup_grouped {entries : List ι} {k : κ} {group : γ}
    (found : (grouped key empty add entries).lookup k = some group) : ∃ entry ∈ entries, key entry = k := by
  induction entries using List.reverseRecOn generalizing group with
  | nil => cases found
  | append_singleton front last ih =>
      rw [grouped_append] at found
      by_cases same : key last = k
      · exact ⟨last, List.mem_append_right _ List.mem_cons_self, same⟩
      · rw [AList.lookup_insert_ne (Ne.symm same)] at found
        obtain ⟨entry, inside, equal⟩ := ih found
        exact ⟨entry, List.mem_append_left _ inside, equal⟩

/-- Adding under a name keeps the last entry of each name. -/
theorem dlookup_foldl_kinsert (name : ι → κ) (value : ι → δ) (entries : List ι) (k : κ) :
    (entries.foldl (fun fields entry => fields.kinsert (name entry) (value entry))
      ([] : List (Sigma fun _ : κ => δ))).dlookup k =
      (entries.reverse.find? fun entry => name entry = k).map value := by
  induction entries using List.reverseRecOn with
  | nil => rfl
  | append_singleton front last ih =>
      rw [List.foldl_append, List.reverse_append, List.reverse_singleton, List.singleton_append]
      by_cases same : name last = k
      · subst same
        rw [List.foldl_cons, List.foldl_nil, List.dlookup_kinsert]
        simp
      · rw [List.foldl_cons, List.foldl_nil, List.dlookup_kinsert_ne (Ne.symm same), ih]
        simp [same]

theorem nodupKeys_foldl_kinsert (name : ι → κ) (value : ι → δ) (entries : List ι) :
    (entries.foldl (fun fields entry => fields.kinsert (name entry) (value entry))
      ([] : List (Sigma fun _ : κ => δ))).NodupKeys := by
  induction entries using List.reverseRecOn with
  | nil => exact List.nodupKeys_nil
  | append_singleton front last ih =>
      rw [List.foldl_append]
      exact List.kinsert_nodupKeys _ _ ih

theorem lookup_foldl_insert (name : ι → κ) (value : ι → δ) (entries : List ι) (k : κ) :
    (entries.foldl (fun map entry => map.insert (name entry) (value entry))
      (∅ : AList fun _ : κ => δ)).lookup k = (entries.reverse.find? fun entry => name entry = k).map value := by
  induction entries using List.reverseRecOn with
  | nil => rfl
  | append_singleton front last ih =>
      rw [List.foldl_append, List.reverse_append, List.reverse_singleton, List.singleton_append]
      by_cases same : name last = k
      · subst same
        rw [List.foldl_cons, List.foldl_nil, AList.lookup_insert]
        simp
      · rw [List.foldl_cons, List.foldl_nil, AList.lookup_insert_ne (Ne.symm same), ih]
        simp [same]

/-- A list of named values that is made of a map. -/
theorem lookup_map_entries {ν : Type} [BEq ν] [LawfulBEq ν] {name : κ → ν} (injective : Function.Injective name)
    (value : γ → δ) (entries : List (Sigma fun _ : κ => γ)) (k : κ) :
    (entries.map fun entry => (name entry.1, value entry.2)).lookup (name k) =
      (entries.dlookup k).map value := by
  induction entries with
  | nil => rfl
  | cons first rest ih =>
      obtain ⟨other, content⟩ := first
      by_cases same : k = other
      · subst same
        rw [List.map_cons, List.lookup_cons_self, List.dlookup_cons_eq]
        rfl
      · have differs : (name k == name other) = false := beq_eq_false_iff_ne.mpr fun equal => same (injective equal)
        have skipped : (⟨other, content⟩ :: rest : List (Sigma fun _ : κ => γ)).dlookup k = rest.dlookup k :=
          List.dlookup_cons_ne rest _ same
        rw [List.map_cons, List.lookup_cons, differs, skipped]
        exact ih

theorem lookup_eq_none {ν : Type} [BEq ν] [LawfulBEq ν] {entries : List (ν × δ)} {k : ν}
    (absent : ∀ entry ∈ entries, entry.1 ≠ k) : entries.lookup k = none := by
  induction entries with
  | nil => rfl
  | cons first rest ih =>
      have differs : (k == first.1) = false := beq_eq_false_iff_ne.mpr (Ne.symm (absent first List.mem_cons_self))
      rw [List.lookup_cons, differs]
      exact ih fun entry inside => absent entry (List.mem_cons_of_mem _ inside)

end Grouping
