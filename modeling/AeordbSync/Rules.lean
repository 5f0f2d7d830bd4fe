import AeordbSync.Push.Flush

namespace AeordbSync
open Characters OsPath FileSystem Effect

variable {ρ α : Type} {env : Env ρ}

/-- Only the time has passed. -/
structure Unmoved (w next : World ρ) : Prop where
  disk : next.disk = w.disk
  store : next.store = w.store
  remote : next.remote = w.remote
  log : next.log = w.log

namespace Unmoved

theorem refl (w : World ρ) : Unmoved w w := ⟨rfl, rfl, rfl, rfl⟩

theorem advance {w next : World ρ} (unmoved : Unmoved w next) : Unmoved w next.advance :=
  ⟨unmoved.disk, unmoved.store, unmoved.remote, unmoved.log⟩

theorem trans {w next last : World ρ} (first : Unmoved w next) (second : Unmoved next last) :
    Unmoved w last :=
  ⟨second.disk.trans first.disk, second.store.trans first.store, second.remote.trans first.remote,
    second.log.trans first.log⟩

theorem of_eq {w next : World ρ} (equal : next = w) : Unmoved w next := by
  subst equal
  exact refl _

end Unmoved

section Rules

variable {P : World ρ → Prop} {Q : α → World ρ → Prop} {E : ClientError → World ρ → Prop}
  {w : World ρ}

theorem readDisk_triple {call : DiskCall} {path : PathBuf} {f : Tree → Except IoError α}
    {Q : Except IoError α → World ρ → Prop}
    (holds : ∀ w, P w → Q (env.faulty call path w.tick (f w.disk)) w.advance) :
    Triple P (readDisk env call path f) Q E :=
  fun w before => holds w before

/-- A read either answers from the disk or fails. -/
theorem readDisk_unmoved {call : DiskCall} {path : PathBuf} {f : Tree → Except IoError α} :
    Triple (Unmoved w) (readDisk env call path f)
      (fun r next => Unmoved w next ∧ (r = f w.disk ∨
        ∃ error tick, r = .error error ∧ env.diskFault call path tick = some error)) E := by
  intro next unmoved
  refine ⟨unmoved.advance, ?_⟩
  unfold Env.faulty
  cases fault : env.diskFault call path next.tick with
  | some error => exact Or.inr ⟨error, next.tick, rfl, fault⟩
  | none => exact Or.inl (by rw [unmoved.disk])

theorem now_unmoved : Triple (Unmoved w) (now env) (fun _ => Unmoved w) E :=
  fun _ unmoved => unmoved.advance

theorem arrange_unmoved {xs : List α} :
    Triple (Unmoved w) (arrange env xs) (fun ys next => Unmoved w next ∧ ys.Perm xs) E :=
  fun next unmoved => ⟨unmoved.advance, env.order_perm next.tick xs⟩

theorem readStore_unmoved {f : MetadataStore → α} :
    Triple (Unmoved w) (readStore env f) (fun a next => Unmoved w next ∧ a = f w.store)
      (fun _ => Unmoved w) := by
  intro next unmoved
  unfold readStore
  split
  · exact unmoved.advance
  · exact ⟨unmoved.advance, by rw [unmoved.store]⟩

theorem orFail_triple {x : Program ρ (Except IoError α)} {R : α → World ρ → Prop}
    (triple : Triple P x (fun r next => match r with
      | .ok a => R a next
      | .error error => E (.io error) next) E) : Triple P (orFail x) R E := by
  refine Triple.bind triple fun r => ?_
  cases r with
  | ok a => exact Triple.ret fun _ holds => holds
  | error error => exact Triple.throw fun _ holds => holds

theorem note_triple {event : Event ρ} {Q : Unit → World ρ → Prop}
    (holds : ∀ w, P w → Q () { w with log := event :: w.log }) : Triple P (note event) Q E :=
  Triple.modify holds

theorem callRemote_triple {x : Proc ρ ClientError α}
    (returned : ∀ w a, P w → (x w.remote).1 = .ok a → Q a { w with remote := (x w.remote).2 })
    (failed : ∀ w e, P w → (x w.remote).1 = .error e → E e { w with remote := (x w.remote).2 }) :
    Triple P (callRemote x) Q E := by
  intro w before
  change Outcome Q E ((x w.remote).1, { w with remote := (x w.remote).2 })
  cases result : (x w.remote).1 with
  | ok a => exact returned w a before result
  | error e => exact failed w e before result

theorem writeStore_triple {f : MetadataStore → MetadataStore} {events : ρ → List (Event ρ)}
    {Q : Unit → World ρ → Prop}
    (written : ∀ w, P w → Q ()
      { w.advance with store := f w.store, log := events w.remote ++ w.log })
    (failed : ∀ w e, P w → E e w.advance) : Triple P (writeStore env f events) Q E := by
  intro w before
  unfold writeStore
  split
  · exact failed w _ before
  · exact written w before

/-- Writing no record needs no write. -/
theorem setFileMetasBatch_triple {metas : List FileSyncMeta} {Q : Unit → World ρ → Prop}
    (nothing : metas = [] → ∀ w, P w → Q () w)
    (written : ∀ w, P w → Q () { w.advance with
      store := { w.store with files := w.store.files.setAll metas }
      log := metas.map (fun record => .recorded record w.remote) ++ w.log })
    (failed : ∀ w e, P w → E e w.advance) : Triple P (setFileMetasBatch env metas) Q E := by
  unfold setFileMetasBatch
  exact Triple.ite (fun empty => Triple.ret fun w before => nothing empty w before)
    fun _ => writeStore_triple written failed

end Rules

section PushRules

variable {P : PushState ρ → Prop} {Q : α → PushState ρ → Prop} {E : ClientError → PushState ρ → Prop}

theorem onWorld_triple {x : Program ρ α}
    (each : ∀ s, P s → Triple (· = s.world) x (fun a w => Q a (s.withWorld w))
      (fun e w => E e (s.withWorld w))) : Triple P (onWorld x) Q E :=
  Triple.zoom each

end PushRules

end AeordbSync
