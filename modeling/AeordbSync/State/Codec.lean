import AeordbSync.State.Slots

namespace AeordbSync
open Characters Effect StateStore

theorem SyncStatus.ofJson_json (status : SyncStatus) : SyncStatus.ofJson status.json = some status := by
  cases status <;> decide

/-- A record is read as it was written. -/
theorem FileSyncMeta.ofJson_json (record : FileSyncMeta) : FileSyncMeta.ofJson record.json = some record := by
  have fields : record.json.get (text "path") = some (.string record.path) ∧
      record.json.get (text "content_hash") = some (.string record.contentHash) ∧
      record.json.get (text "size") = some (.number record.size) ∧
      record.json.get (text "modified_at") = some (.number record.modifiedAt) ∧
      record.json.get (text "sync_status") = some record.syncStatus.json ∧
      record.json.get (text "last_synced_at") = some (.number record.lastSyncedAt) := by
    refine ⟨?_, ?_, ?_, ?_, ?_, ?_⟩ <;> rfl
  obtain ⟨path, contentHash, size, modifiedAt, status, lastSyncedAt⟩ := fields
  simp [FileSyncMeta.ofJson, path, contentHash, size, modifiedAt, status, lastSyncedAt, Json.string?,
    Json.nat?, Json.number?, SyncStatus.ofJson_json]

namespace Items

theorem dlookup_of_mapM {fields : Json.Fields} {entries : List (Sigma fun _ : Text => FileSyncMeta)}
    (read : fields.mapM entryOfField = some entries) (name : Text) :
    entries.dlookup name = (fields.dlookup name).bind FileSyncMeta.ofJson := by
  induction fields generalizing entries with
  | nil =>
      cases read
      rfl
  | cons field rest ih =>
      simp only [List.mapM_cons, Option.bind_eq_bind, Option.bind_eq_some_iff] at read
      obtain ⟨entry, first, more, later, whole⟩ := read
      obtain ⟨record, decoded, rfl⟩ := Option.map_eq_some_iff.mp first
      cases whole
      obtain ⟨key, value⟩ := field
      by_cases same : name = key
      · subst same
        rw [List.dlookup_cons_eq, List.dlookup_cons_eq]
        exact decoded.symm
      · have left : (⟨key, record⟩ :: more : List (Sigma fun _ : Text => FileSyncMeta)).dlookup name =
            more.dlookup name := List.dlookup_cons_ne more _ same
        have right : (⟨key, value⟩ :: rest : Json.Fields).dlookup name = rest.dlookup name :=
          List.dlookup_cons_ne rest _ same
        rw [left, right]
        exact ih later

theorem mapM_of_readable {fields : Json.Fields}
    (readable : ∀ field ∈ fields, ∃ record, FileSyncMeta.ofJson field.2 = some record) :
    ∃ entries, fields.mapM entryOfField = some entries := by
  induction fields with
  | nil => exact ⟨[], rfl⟩
  | cons field rest ih =>
      obtain ⟨record, decoded⟩ := readable field List.mem_cons_self
      obtain ⟨more, later⟩ := ih fun other inside => readable other (List.mem_cons_of_mem _ inside)
      refine ⟨⟨field.1, record⟩ :: more, ?_⟩
      simp [entryOfField, decoded, later]

/-- Fields that hold written records are read as the map that they show. -/
theorem ofJson_fields {fields : Json.Fields} {view : Text → Option FileSyncMeta} (nodup : fields.NodupKeys)
    (shown : ∀ name, fields.dlookup name = (view name).map FileSyncMeta.json) :
    ∃ items, ofJson (.object fields) = some items ∧ ∀ name, items.lookup name = view name := by
  have readable : ∀ field ∈ fields, ∃ record, FileSyncMeta.ofJson field.2 = some record := by
    intro field inside
    have found : fields.dlookup field.1 = some field.2 := List.mem_dlookup nodup inside
    rw [shown] at found
    obtain ⟨record, -, written⟩ := Option.map_eq_some_iff.mp found
    exact ⟨record, by rw [← written, FileSyncMeta.ofJson_json]⟩
  obtain ⟨entries, read⟩ := mapM_of_readable readable
  refine ⟨entries.toAList, by simp [ofJson, read], ?_⟩
  intro name
  have looked : entries.toAList.lookup name = entries.dlookup name := by
    show (List.dedupKeys entries).dlookup name = _
    exact List.dlookup_dedupKeys name entries
  rw [looked, dlookup_of_mapM read, shown]
  cases view name with
  | none => rfl
  | some record => rw [Option.map_some, Option.bind_some, FileSyncMeta.ofJson_json]

theorem dlookup_fields (items : Items) (name : Text) :
    items.fields.dlookup name = (items.lookup name).map FileSyncMeta.json :=
  List.dlookup_map₂ name

theorem nodup_fields (items : Items) : items.fields.NodupKeys :=
  List.NodupKeys.map₂ _ items.entries items.nodupKeys

/-- A map is read as it was written. -/
theorem ofJson_json (items : Items) :
    ∃ read, ofJson items.json = some read ∧ ∀ name, read.lookup name = items.lookup name :=
  ofJson_fields items.nodup_fields items.dlookup_fields

theorem mem_values {items : Items} {record : FileSyncMeta} :
    record ∈ items.values ↔ ∃ name, items.lookup name = some record := by
  rw [values, List.mem_map]
  constructor
  · rintro ⟨entry, inside, rfl⟩
    exact ⟨entry.1, List.mem_dlookup items.nodupKeys inside⟩
  · rintro ⟨name, found⟩
    exact ⟨⟨name, record⟩, List.of_mem_dlookup found, rfl⟩

/-- Records filed under different names differ. -/
theorem nodup_values {items : Items} (name : FileSyncMeta → Text)
    (filed : ∀ key record, items.lookup key = some record → key = name record) : items.values.Nodup := by
  apply List.Nodup.map_on
  · intro entry inside other member same
    have first := filed entry.1 entry.2 (List.mem_dlookup items.nodupKeys inside)
    have second := filed other.1 other.2 (List.mem_dlookup items.nodupKeys member)
    obtain ⟨key, record⟩ := entry
    obtain ⟨key', record'⟩ := other
    simp only at same first second
    subst same
    rw [first, second]
  · exact items.nodupKeys.nodup

end Items

/-- A bucket that is absent, or has lost its version, holds nothing. -/
inductive Represents : Option Json → (Text → Option FileSyncMeta) → Prop
  | absent {view : Text → Option FileSyncMeta} (empty : ∀ name, view name = none) : Represents none view
  | stored {json : Json} {fields : Json.Fields} {view : Text → Option FileSyncMeta}
      (nodup : json.fields.NodupKeys) (items : json.get (text "items") = some (.object fields))
      (distinct : fields.NodupKeys) (shown : ∀ name, fields.dlookup name = (view name).map FileSyncMeta.json)
      (version : json.get (text "$v") = some (.number 1) ∨ ∀ name, view name = none) :
      Represents (some json) view

namespace Represents

/-- Reading a bucket gives its view, and nothing where it cannot be read. -/
theorem read {doc : Option Json} {view : Text → Option FileSyncMeta} (holds : Represents doc view)
    (name : Text) :
    ((doc.bind FileMetaBucket.ofJson).bind fun bucket => bucket.items.lookup name) = view name := by
  cases holds with
  | absent empty => exact (empty name).symm
  | @stored json fields _ nodup items distinct shown version =>
      obtain ⟨read, decoded, looked⟩ := Items.ofJson_fields distinct shown
      show ((FileMetaBucket.ofJson json).bind fun bucket => bucket.items.lookup name) = view name
      rcases version with one | empty
      · simp [FileMetaBucket.ofJson, one, items, decoded, Json.nat?, looked]
      · rw [empty name, Option.bind_eq_none_iff]
        intro bucket found
        cases versioned : (json.get (text "$v")).bind Json.nat? with
        | none => simp [FileMetaBucket.ofJson, versioned] at found
        | some number =>
            simp only [FileMetaBucket.ofJson, versioned, items, decoded, Option.bind_eq_bind,
              Option.bind_some] at found
            split at found
            · cases found
              rw [looked, empty]
            · cases found

theorem congr {doc : Option Json} {view other : Text → Option FileSyncMeta} (holds : Represents doc view)
    (same : ∀ name, view name = other name) : Represents doc other := by
  have equal : view = other := funext same
  rwa [← equal]

/-- A bucket as the migration writes it. -/
theorem of_bucket (items : Items) : Represents (some (FileMetaBucket.json ⟨1, items⟩)) (items.lookup ·) := by
  have held : (FileMetaBucket.json ⟨1, items⟩).get (text "items") = some (.object items.fields) := rfl
  apply Represents.stored _ held items.nodup_fields items.dlookup_fields (Or.inl rfl)
  show ([text "$v", text "items"] : List Text).Nodup
  decide

/-- The fields that a patch of the bucket finds. -/
theorem fields_of {doc : Option Json} {view : Text → Option FileSyncMeta} (holds : Represents doc view) :
    (doc.getD (.object [])).fields.NodupKeys ∧
      (((doc.getD (.object [])).get (text "items")).getD .null).fields.NodupKeys ∧
      ∀ name, (((doc.getD (.object [])).get (text "items")).getD .null).fields.dlookup name =
        (view name).map FileSyncMeta.json := by
  cases holds with
  | absent empty =>
      refine ⟨List.nodupKeys_nil, List.nodupKeys_nil, ?_⟩
      intro name
      rw [empty name]
      rfl
  | stored nodup items distinct shown version =>
      simp only [Option.getD_some, items]
      exact ⟨nodup, distinct, shown⟩

/-- The records of a bucket after a patch that names some of them. -/
theorem patched {doc : Option Json} {view : Text → Option FileSyncMeta} (holds : Represents doc view)
    {patch : Json} {inner : Json.Fields} (distinct : inner.NodupKeys) {new : Text → Option FileSyncMeta}
    (nodup : ((doc.getD (.object [])).merge 2 patch).fields.NodupKeys)
    (items : ((doc.getD (.object [])).merge 2 patch).get (text "items") =
      some ((((doc.getD (.object [])).get (text "items")).getD .null).merge 1 (.object inner)))
    (kept : ∀ name, inner.dlookup name = none → new name = view name)
    (written : ∀ name value, inner.dlookup name = some value →
      value = .null ∧ new name = none ∨ ∃ record, value = FileSyncMeta.json record ∧ new name = some record)
    (version : ((doc.getD (.object [])).merge 2 patch).get (text "$v") = some (.number 1) ∨
      ∀ name, new name = none) :
    Represents (some ((doc.getD (.object [])).merge 2 patch)) new := by
  obtain ⟨-, old, seen⟩ := holds.fields_of
  rw [Json.merge_object] at items
  apply Represents.stored nodup items _ _ version
  · exact Json.nodupKeys_merge 0 inner old
  · intro name
    have merged := Json.get_merge 0 old distinct name
    rw [Json.merge_object] at merged
    refine merged.trans ?_
    cases looked : inner.dlookup name with
    | none =>
        rw [kept name looked]
        exact seen name
    | some value =>
        rcases written name value looked with ⟨rfl, gone⟩ | ⟨record, rfl, put⟩
        · rw [gone]
          rfl
        · rw [put]
          rfl

theorem bucketPatch_distinct (inner : Json.Fields) : (SyncMetadataStore.bucketPatch inner).fields.NodupKeys := by
  show ([text "$v", text "items"] : List Text).Nodup
  decide

/-- A bucket after records are put into it. -/
theorem set {doc : Option Json} {view : Text → Option FileSyncMeta} (holds : Represents doc view)
    {inner : Json.Fields} {new : Text → Option FileSyncMeta} (distinct : inner.NodupKeys)
    (shown : ∀ name, inner.dlookup name = (new name).map FileSyncMeta.json) :
    Represents (some ((doc.getD (.object [])).merge 2 (SyncMetadataStore.bucketPatch inner)))
      fun name => (new name).or (view name) := by
  have old := holds.fields_of.1
  have merged := fun key => Json.get_merge 1 old (bucketPatch_distinct inner) key
  apply holds.patched distinct (Json.nodupKeys_merge 1 _ old)
  · exact merged (text "items")
  · intro name absent
    rw [shown, Option.map_eq_none_iff] at absent
    rw [absent, Option.none_or]
  · intro name value present
    rw [shown] at present
    obtain ⟨record, found, written⟩ := Option.map_eq_some_iff.mp present
    exact Or.inr ⟨record, written.symm, by rw [found, Option.some_or]⟩
  · left
    exact merged (text "$v")

/-- A bucket after a record is taken out. Where there was none, it holds no version. -/
theorem remove {doc : Option Json} {view : Text → Option FileSyncMeta} (holds : Represents doc view)
    (gone : Text) :
    Represents (some ((doc.getD (.object [])).merge 2 (SyncMetadataStore.deletePatch gone)))
      fun name => if name = gone then none else view name := by
  have old := holds.fields_of.1
  have single : (SyncMetadataStore.deletePatch gone).fields.NodupKeys := List.nodupKeys_singleton _
  have merged := fun key => Json.get_merge 1 old single key
  have inner : ([⟨gone, .null⟩] : Json.Fields).NodupKeys := List.nodupKeys_singleton _
  apply holds.patched inner (Json.nodupKeys_merge 1 _ old)
  · exact merged (text "items")
  · intro name absent
    have other : name ≠ gone := by
      rintro rfl
      rw [List.dlookup_cons_eq] at absent
      cases absent
    rw [if_neg other]
  · intro name value present
    by_cases same : name = gone
    · subst same
      rw [List.dlookup_cons_eq, Option.some.injEq] at present
      exact Or.inl ⟨present.symm, if_pos rfl⟩
    · have absent : ([⟨gone, .null⟩] : Json.Fields).dlookup name = none := List.dlookup_cons_ne [] _ same
      rw [absent] at present
      cases present
  · cases holds with
    | absent empty =>
        right
        intro name
        rw [empty, ite_self]
    | stored nodup items distinct shown version =>
        rcases version with one | empty
        · left
          exact (merged (text "$v")).trans one
        · right
          intro name
          rw [empty, ite_self]

end Represents

end AeordbSync
