import GraceStore.Proofs.Command.Refusals
import GraceStore.Proofs.Store.Tokens

/-!
# What operations come down to

Every operation either does not look at objects at all, or comes down to one action in one keyspace, of which
only the result is looked at afterwards. What holds of all actions therefore holds of all operations.
-/

namespace GraceStore

def StoreAnswer.isFailed : StoreAnswer → Bool
  | .failed _ => true
  | _ => false

namespace Multistore

open GraceStore.Action

variable {m : Multistore} {i j : DomainId} {clock : Clock} {s s' : Store} {k : Keyspace} {o : ObjectId}
  {cell : Cell Bytes} {op : StoreOp} {α β : Type}

/-! ## Beside the heap -/

/-- The numbers of the domains. -/
def ids (m : Multistore) : List DomainId := m.keyspaces.map Keyspace.id

/-- What is done without looking at objects. -/
structure Aside (f : Multistore → β × Multistore) : Prop where
  heap : ∀ m heap, f { m with heap } = ((f m).1, { (f m).2 with heap })
  ids : ∀ m, (f m).2.ids = m.ids

theorem ids_modifyDomain (m : Multistore) (i : DomainId) {f : Keyspace → Domain Garbage} (hf : ∀ k, (f k).id = k.id) :
    (m.modifyKeyspace i fun k => { k with domain := f k }).ids = m.ids := by
  refine List.ext_getElem? fun j => ?_
  simp only [ids, modifyKeyspace, List.getElem?_map, List.getElem?_modify]
  cases m.keyspaces[j]? with
  | none => rfl
  | some k =>
      by_cases hij : i = j
      · simp [hij, Keyspace.id, hf]
      · simp [hij]

theorem ids_set {k' : Keyspace} (hk : m.keyspaces[i]? = some k) (hid : k'.id = k.id) :
    ({ m with keyspaces := m.keyspaces.set i k' } : Multistore).ids = m.ids := by
  obtain ⟨hlt, rfl⟩ := List.getElem?_eq_some_iff.mp hk
  have hlt' : i < (m.keyspaces.map Keyspace.id).length := by simpa using hlt
  have hsame : k'.id = (m.keyspaces.map Keyspace.id).get ⟨i, hlt'⟩ := by simp [hid]
  simp only [ids, List.map_set, hsame, List.get_eq_getElem, List.set_getElem_self]

theorem ids_orphan (m : Multistore) (old : Retired Garbage) : (m.orphan old).ids = m.ids :=
  ids_modifyDomain m _ fun _ => rfl

theorem ids_reclaim (m : Multistore) (i : DomainId) (old : Retired Garbage) : (m.reclaim i old).ids = m.ids := by
  unfold reclaim
  split
  · rfl
  · rename_i k hk
    refine (ids_modifyDomain _ _ fun k' => ?_).trans (ids_set hk rfl)
    unfold Domain.freeAfter
    split <;> rfl

theorem reclaim_heap (m : Multistore) (i : DomainId) (old : Retired Garbage) (heap : Heap) :
    { m with heap }.reclaim i old = { m.reclaim i old with heap } := by
  simp only [reclaim, keyspace?]
  split <;> rfl

theorem aside_keepBuffer (name : String) (old : Retired Garbage) : Aside fun m => ((), m.keepBuffer name old) where
  heap m heap := by
    simp only [keepBuffer]
    split <;> rfl
  ids m := by
    simp only [keepBuffer]
    split
    · exact ids_orphan _ _
    · rfl

theorem aside_dispose (i : DomainId) (old : Retired Garbage) (d : Disposal) :
    Aside fun m => ((), m.dispose i old d) := by
  cases d with
  | reclaim => exact ⟨fun m heap => congrArg (Prod.mk ()) (reclaim_heap m i old heap), fun m => ids_reclaim m i old⟩
  | hold name => exact aside_keepBuffer name old
  | drop => exact ⟨fun _ _ => rfl, fun m => ids_orphan m old⟩

theorem aside_reclaimKept (i : DomainId) (name : String) : Aside fun m => m.reclaimKept i name where
  heap m heap := by
    simp only [reclaimKept]
    split
    · exact congrArg (Prod.mk true) (reclaim_heap { m with buffers := m.buffers.erase name } i _ heap)
    · rfl
  ids m := by
    simp only [reclaimKept]
    split
    · exact ids_reclaim _ i _
    · rfl

theorem aside_forget (name : String) : Aside fun m => m.forget name where
  heap m heap := by
    simp only [forget]
    split <;> rfl
  ids m := by
    simp only [forget]
    split
    · exact ids_orphan _ _
    · rfl

theorem aside_closeView (name : String) : Aside fun m => m.closeView name where
  heap m heap := by
    simp only [closeView]
    split <;> rfl
  ids m := by
    simp only [closeView]
    split
    · exact ids_modifyDomain _ _ fun _ => rfl
    · rfl

theorem aside_openView (i : DomainId) (now : UInt64) (name : String) : Aside fun m => ((), m.openView i now name) where
  heap m heap := by
    simp only [openView, (aside_closeView name).heap m heap, keyspace?]
    split <;> rfl
  ids m := by
    simp only [openView, keyspace?]
    split
    · exact (aside_closeView name).ids m
    · rename_i k hk
      let domain := k.domain.register.2.enter k.domain.register.1
      have hid : Keyspace.id { k with domain } = k.id := rfl
      exact (ids_set hk hid).trans ((aside_closeView name).ids m)

/-! ## What operations come down to -/

/-- The keyspace in which an operation is carried out; a reader goes by its view. -/
def acting (m : Multistore) (i : DomainId) (clock : Clock) : StoreOp → DomainId
  | .lookup _ view | .ttl _ view => (m.readerAt i clock.time view).1
  | _ => i

/-- What is made of the end of an action, without looking at objects. -/
structure Concludes (f : Option (Except Failure α) → Multistore → StoreAnswer × Multistore) : Prop where
  aside : ∀ r, Aside (f r)
  error : ∀ why m, f (some (.error why)) m = (.failed why, m)
  none : ∀ m, (f none m).1.isFailed = false

/-- An operation does not look at objects, or comes down to one action in its keyspace. -/
inductive Comes [Decimals] (m : Multistore) (i : DomainId) (clock : Clock) (op : StoreOp) : Prop
  | aside
      (heap : ∀ heap, { m with heap }.step i clock op = ((m.step i clock op).1, { (m.step i clock op).2 with heap }))
      (ids : (m.step i clock op).2.ids = m.ids) (answer : (m.step i clock op).1.isFailed = false)
  | acts {α : Type} (a : Action α) (t : Clock) (f : Option (Except Failure α) → Multistore → StoreAnswer × Multistore)
      (hf : Concludes f)
      (hstep : ∀ heap, { m with heap }.step i clock op =
        f ({ m with heap }.run (m.acting i clock op) t a).1 ({ m with heap }.run (m.acting i clock op) t a).2)
      (hmade : a.MadeOf fun _ => True)
      (hfares : ∀ env s, s.keyspace.table.Valid s.keyspace.hash → a.Fares env s (fun _ _ => True) s.Spares)
      (hanswer : ∀ env s x, (a.run env s).1 = .ok x → ∀ m, (f (some (.ok x)) m).1.isFailed = false)

/-! ### Actions -/

/-- An action that has a result answers with something else than a failure. -/
def Answers (a : Action StoreAnswer) : Prop := ∀ env s x, (a.run env s).1 = .ok x → x.isFailed = false

theorem Answers.pure {x : StoreAnswer} (h : x.isFailed = false) : Answers (Pure.pure x) := fun env s y hy => by
  cases hy
  exact h

theorem Answers.bind {a : Action β} {f : β → Action StoreAnswer} (h : ∀ x, Answers (f x)) : Answers (a >>= f) := by
  intro env s x
  rw [run_bind]
  generalize a.run env s = r
  obtain ⟨e | y, s'⟩ := r
  · exact fun hx => by cases hx
  · exact h y env s' x

theorem Answers.map (a : Action β) {g : β → StoreAnswer} (h : ∀ x, (g x).isFailed = false) : Answers (g <$> a) := by
  rw [map_eq_pure_bind]
  exact .bind fun x => .pure (h x)

theorem answers_viewFound (found : Option ObjectId) : Answers (viewFound found) := by
  cases found with
  | none => exact .pure rfl
  | some o => exact .bind fun _ => .pure rfl

/-- An action that answers for itself. -/
theorem concludes_perform : Concludes fun (r : Option (Except Failure StoreAnswer)) (m : Multistore) =>
    match r with
    | some (.ok answer) => (answer, m)
    | some (.error why) => (.failed why, m)
    | none => (.unknownName, m) where
  aside r := by
    obtain _ | why | answer := r <;> exact ⟨fun _ _ => rfl, fun _ => rfl⟩
  error _ _ := rfl
  none _ := rfl

theorem comes_perform [Decimals] {a : Action StoreAnswer} {t : Clock}
    (hstep : ∀ heap, { m with heap }.step i clock op = { m with heap }.perform (m.acting i clock op) t a)
    (hmade : a.MadeOf fun _ => True)
    (hfares : ∀ env s, s.keyspace.table.Valid s.keyspace.hash → a.Fares env s (fun _ _ => True) s.Spares)
    (hanswer : Answers a) : m.Comes i clock op := by
  refine .acts a t _ concludes_perform (fun heap => ?_) hmade hfares fun env s x hx _ => hanswer env s x hx
  rw [hstep, perform]
  generalize { m with heap }.run (m.acting i clock op) t a = r
  obtain ⟨_ | why | answer, m'⟩ := r <;> rfl

theorem comes_changes [Decimals] {a : Action StoreAnswer} {t : Clock}
    (hstep : ∀ heap, { m with heap }.step i clock op = { m with heap }.perform (m.acting i clock op) t a)
    (hmade : ∀ {kinds : StepKind → Prop}, kinds .look → kinds .change → a.MadeOf kinds) (hanswer : Answers a) :
    m.Comes i clock op :=
  comes_perform hstep (hmade trivial trivial) (fun _ _ _ => Request.fares_of_changes (hmade (.inl rfl) (.inr rfl)))
    hanswer

theorem comes_looks [Decimals] {a : Action StoreAnswer} {t : Clock}
    (hstep : ∀ heap, { m with heap }.step i clock op = { m with heap }.perform (m.acting i clock op) t a)
    (hmade : ∀ {kinds : StepKind → Prop}, kinds .look → kinds .count → kinds .load → a.MadeOf kinds)
    (hanswer : Answers a) :
    m.Comes i clock op :=
  comes_perform hstep (hmade trivial trivial trivial)
    (fun _ _ _ => Request.fares_of_looks (hmade (.inl rfl) (.inr (.inl rfl)) (.inr (.inr rfl)))) hanswer

theorem comes_performWith [Decimals] {source : ObjectSource} {f : ObjectId → Action StoreAnswer}
    (hacting : m.acting i clock op = i)
    (hstep : ∀ heap, { m with heap }.step i clock op = { m with heap }.performWith i clock source f)
    (hmade : ∀ {kinds : StepKind → Prop}, kinds .change → ∀ o, (f o).MadeOf kinds) (hanswer : ∀ o, Answers (f o)) :
    m.Comes i clock op := by
  refine comes_changes (t := clock)
    (a := fromSource m.objects source >>= fun found => found.elim (return .unknownName) f)
    (fun heap => ?_) (fun _ hc => ?_) (.bind fun found => ?_)
  · rw [hstep, hacting, performWith]
    refine congrArg (fun g => perform _ i clock (fromSource m.objects source >>= g)) (funext fun found => ?_)
    cases found <;> rfl
  · refine .bind (madeOf_fromSource hc m.objects source) fun found => ?_
    cases found with
    | none => exact .pure _
    | some o => exact hmade hc o
  · cases found with
    | none => exact .pure rfl
    | some o => exact hanswer o

theorem comes_make [Decimals] (source : ObjectSource) (name : String) : m.Comes i clock (.make source name) := by
  refine .acts (fromSource m.objects source) clock (fun r m => match r with
    | some (.ok (some id)) => (.done, m.keepObject name id)
    | some (.error why) => (.failed why, m)
    | some (.ok none) => (.unknownName, m)
    | none => (.unknownName, m)) ⟨fun r => ?_, fun _ _ => rfl, fun _ => rfl⟩ (fun heap => ?_)
    (madeOf_fromSource trivial _ source) (fun _ _ _ => Request.fares_of_changes (madeOf_fromSource (.inr rfl) _ source))
    fun _ _ x _ _ => by cases x <;> rfl
  · obtain _ | why | _ | o := r <;> exact ⟨fun _ _ => rfl, fun _ => rfl⟩
  · have hstep : { m with heap }.step i clock (.make source name) = { m with heap }.make i clock source name := rfl
    have hacting : m.acting i clock (.make source name) = i := rfl
    rw [hstep, hacting, make]
    generalize { m with heap }.run i clock (fromSource m.objects source) = r
    obtain ⟨_ | why | _ | o, m'⟩ := r <;> rfl

theorem comes_grant [Decimals] {a : Action (Option Token)} (keep : Option String) (hacting : m.acting i clock op = i)
    (hstep : ∀ heap, { m with heap }.step i clock op = { m with heap }.grant i clock a keep)
    (hmade : a.MadeOf fun _ => True)
    (hfares : ∀ env s, s.keyspace.table.Valid s.keyspace.hash → a.Fares env s (fun _ _ => True) s.Spares) :
    m.Comes i clock op := by
  refine .acts a clock (fun r m => match r with
    | some (.ok (some token)) => (.flag true, keep.elim m fun name => m.keepToken name token)
    | some (.ok none) => (.flag false, m)
    | some (.error why) => (.failed why, m)
    | none => (.unknownName, m)) ⟨fun r => ?_, fun _ _ => rfl, fun _ => rfl⟩ (fun heap => ?_) hmade hfares
    fun _ _ x _ _ => by cases x <;> rfl
  · obtain _ | why | _ | token := r
    · exact ⟨fun _ _ => rfl, fun _ => rfl⟩
    · exact ⟨fun _ _ => rfl, fun _ => rfl⟩
    · exact ⟨fun _ _ => rfl, fun _ => rfl⟩
    · cases keep <;> exact ⟨fun _ _ => rfl, fun _ => rfl⟩
  · rw [hstep, hacting, grant]
    generalize { m with heap }.run i clock a = r
    obtain ⟨_ | why | _ | token, m'⟩ := r
    · rfl
    · rfl
    · rfl
    · cases keep <;> rfl

theorem comes_publish [Decimals] {token : Token} (data : Bytes) (disposal : Disposal)
    (hacting : m.acting i clock op = i)
    (hstep : ∀ heap, { m with heap }.step i clock op = { m with heap }.publish i clock token data disposal) :
    m.Comes i clock op := by
  refine .acts (publishBytes token data) clock (fun r m => match r with
    | some (.ok (some old)) => (.published, m.dispose i old disposal)
    | some (.ok none) => (.refused data, m)
    | some (.error why) => (.failed why, m)
    | none => (.unknownName, m)) ⟨fun r => ?_, fun _ _ => rfl, fun _ => rfl⟩ (fun heap => ?_)
    (.publish trivial token data)
    (fun env s _ => (fares_publishBytes token data).mono (fun _ _ h => h) fun s' hs' => hs'.1 ▸ .refl s)
    fun _ _ x _ _ => by cases x <;> rfl
  · obtain _ | why | _ | old := r
    · exact ⟨fun _ _ => rfl, fun _ => rfl⟩
    · exact ⟨fun _ _ => rfl, fun _ => rfl⟩
    · exact ⟨fun _ _ => rfl, fun _ => rfl⟩
    · have haside := aside_dispose i old disposal
      exact ⟨fun m heap => congrArg (Prod.mk _) (congrArg Prod.snd (haside.heap m heap)), haside.ids⟩
  · rw [hstep, hacting, publish]
    generalize { m with heap }.run i clock (publishBytes token data) = r
    obtain ⟨_ | why | _ | old, m'⟩ := r <;> rfl

theorem comes_withToken [Decimals] (name : String) {f : Multistore → Token → StoreAnswer × Multistore}
    (hstep : ∀ heap, { m with heap }.step i clock op = { m with heap }.withToken name (f { m with heap }))
    (hf : ∀ token, (∀ heap, { m with heap }.step i clock op = f { m with heap } token) → m.Comes i clock op) :
    m.Comes i clock op := by
  cases ht : m.tokens.find? name with
  | some token =>
      refine hf token fun heap => ?_
      rw [hstep, withToken]
      simp only [ht]
  | none =>
      have hnone (heap : Heap) : { m with heap }.step i clock op = (.unknownName, { m with heap }) := by
        rw [hstep, withToken]
        simp only [ht]
      have hself : m.step i clock op = (.unknownName, m) := hnone m.heap
      exact .aside (fun heap => by rw [hnone, hself]) (by rw [hself]) (by rw [hself]; rfl)

/-- Every operation does not look at objects, or comes down to one action in its keyspace. -/
theorem comes_step [Decimals] (m : Multistore) (i : DomainId) (clock : Clock) (op : StoreOp) : m.Comes i clock op := by
  cases op with
  | write argv =>
      exact comes_perform (t := clock) (fun _ => rfl) (.map (Request.madeOf_processWrite (fun _ => trivial) argv) _)
        (fun env s hv => (Request.fares_processWrite hv argv).map _) (.map _ fun _ => rfl)
  | read argv =>
      exact comes_looks (t := clock) (fun _ => rfl) (fun _ hc hl => .map (Request.madeOf_processRead hc hl argv) _)
        (.map _ fun _ => rfl)
  | make source name => exact comes_make source name
  | forget name =>
      have h := aside_forget name
      exact .aside (fun heap => congrArg (fun r : Bool × Multistore => (StoreAnswer.flag r.1, r.2)) (h.heap m heap))
        (h.ids m) rfl
  | add key source =>
      exact comes_performWith rfl (fun _ => rfl) (fun h o => .map (madeOf_add h key o) _) fun _ => .map _ fun _ => rfl
  | overwrite key source =>
      exact comes_performWith rfl (fun _ => rfl) (fun h o => .map (madeOf_overwrite h key o) _)
        fun _ => .map _ fun _ => rfl
  | setKey key source =>
      exact comes_performWith rfl (fun _ => rfl) (fun h o => .bind (madeOf_setKey h key o) fun _ => .pure _)
        fun _ => .bind fun _ => .pure rfl
  | get key =>
      exact comes_looks (t := clock) (fun _ => rfl)
        (fun hk _ hl => .bind (madeOf_getKey hk 0 key) (madeOf_viewFound hl)) (.bind answers_viewFound)
  | sameObject a b =>
      exact comes_looks (t := clock) (fun _ => rfl) (fun hk _ _ => .map (madeOf_sameObject hk a b) _)
        (.map _ fun _ => rfl)
  | remove key =>
      exact comes_changes (t := clock) (fun _ => rfl) (fun hk h => .map (madeOf_remove hk h 0 key) _)
        (.map _ fun _ => rfl)
  | expireIfNeeded key =>
      exact comes_changes (t := clock) (fun _ => rfl) (fun hk h => .map (madeOf_expireIfNeeded hk h 0 key) _)
        (.map _ fun _ => rfl)
  | takeExpired =>
      exact comes_changes (t := clock) (fun _ => rfl) (fun _ h => .map (madeOf_apply h .takeExpired fun _ => rfl) _)
        (.map _ fun _ => rfl)
  | setExpiry key time =>
      exact comes_changes (t := clock) (fun _ => rfl)
        (fun _ h => .map (madeOf_apply h (.setExpiry key time) fun _ => rfl) _) (.map _ fun _ => rfl)
  | expiry key =>
      exact comes_looks (t := clock) (fun _ => rfl) (fun _ _ _ => .bind madeOf_keyspace fun _ => .pure _)
        (.bind fun _ => .pure rfl)
  | exclusive key keep =>
      exact comes_grant keep rfl (fun _ => rfl) (.exclusive trivial key)
        fun _ _ _ => Request.fares_of_changes (.exclusive (.inr rfl) key)
  | unshare key keep =>
      exact comes_grant keep rfl (fun _ => rfl) (madeOf_unshareString trivial trivial trivial 0 key)
        fun _ _ _ => (fares_unshareString 0 key).mono (fun _ _ _ => trivial) fun _ h => h.1
  | tokenObject name =>
      refine comes_withToken name (f := fun m token => m.perform i clock (viewFound (some token.object)))
        (fun _ => rfl) fun token hstep => ?_
      exact comes_looks hstep (fun _ _ hl => madeOf_viewFound hl (some token.object)) (answers_viewFound _)
  | setInteger name v =>
      refine comes_withToken name (f := fun m token => m.perform i clock (.flag <$> setInteger token v))
        (fun _ => rfl) fun token hstep => ?_
      exact comes_changes hstep (fun _ h => .map (.setInteger h token v) _) (.map _ fun _ => rfl)
  | publish name data disposal =>
      exact comes_withToken name (f := fun m token => m.publish i clock token data disposal) (fun _ => rfl)
        fun token hstep => comes_publish data disposal rfl hstep
  | reclaim name =>
      have h := aside_reclaimKept i name
      refine .aside (fun heap => congrArg (fun r : Bool × Multistore =>
        (if r.1 then StoreAnswer.done else .unknownName, r.2)) (h.heap m heap)) (h.ids m) ?_
      simp only [step]
      split <;> rfl
  | synchronize =>
      exact comes_changes (t := clock) (fun _ => rfl)
        (fun _ h => .bind (.update h _ fun _ => rfl) fun _ => .pure _) (.bind fun _ => .pure rfl)
  | activeExpire start samples =>
      exact comes_changes (t := clock) (fun _ => rfl)
        (fun _ h => .map (madeOf_apply h (.activeExpire clock start samples) fun _ => rfl) _) (.map _ fun _ => rfl)
  | markDirty changes =>
      exact comes_changes (t := clock) (fun _ => rfl) (fun _ h => .bind (madeOf_markDirty h changes) fun _ => .pure _)
        (.bind fun _ => .pure rfl)
  | notify kind name key =>
      exact comes_changes (t := clock) (fun _ => rfl)
        (fun _ h => .bind (madeOf_notify h kind name key) fun _ => .pure _) (.bind fun _ => .pure rfl)
  | openView name =>
      have h := aside_openView i clock.time name
      exact .aside (fun heap => congrArg (fun r : Unit × Multistore => (StoreAnswer.done, r.2)) (h.heap m heap))
        (h.ids m) rfl
  | closeView name =>
      have h := aside_closeView name
      exact .aside (fun heap => congrArg (fun r : Bool × Multistore => (StoreAnswer.flag r.1, r.2)) (h.heap m heap))
        (h.ids m) rfl
  | lookup key view =>
      exact comes_looks (t := (m.readerAt i clock.time view).2) (fun _ => rfl)
        (fun _ hc hl => .bind (Command.madeOf_lookup hc key) (madeOf_viewFound hl)) (.bind answers_viewFound)
  | ttl key view =>
      exact comes_looks (t := (m.readerAt i clock.time view).2)
        (a := do return .timeLeft ((← keyspace).ttl (m.readerAt i clock.time view).2 key)) (fun _ => rfl)
        (fun _ _ _ => .bind madeOf_keyspace fun _ => .pure _) (.bind fun _ => .pure rfl)

/-! ## Numbers -/

theorem ids_putStore (hs : m.store? i = some s) (hid : s'.keyspace.id = s.keyspace.id) :
    (m.putStore i s').ids = m.ids := by
  obtain ⟨k, hk, rfl⟩ := Option.map_eq_some_iff.mp hs
  unfold ids
  rw [keyspaces_putStore hs]
  exact ids_set hk hid

theorem ids_step [Decimals] (m : Multistore) (i : DomainId) (clock : Clock) (op : StoreOp) :
    (m.step i clock op).2.ids = m.ids := by
  cases m.comes_step i clock op with
  | aside _ hids => exact hids
  | acts a t f hf hstep hmade =>
      have hself : m.step i clock op = _ := hstep m.heap
      rw [hself, (hf.aside _).ids]
      cases hs : m.store? (m.acting i clock op) with
      | none => rw [run_of_none hs]
      | some s =>
          rw [run_of_store hs]
          exact ids_putStore hs (hmade.id _ s)

/-- The domain of a keyspace has its number. -/
theorem Reachable.ids_eq [Decimals] (h : m.Reachable) : m.ids = List.range m.ids.length := by
  induction h with
  | nothing => rfl
  | @openKeyspace m _ db hash ih =>
      have hopen : (m.openKeyspace db hash).ids = m.ids ++ [m.ids.length] := by
        unfold ids Multistore.openKeyspace
        simp only [List.map_append, List.length_map]
        rfl
      rw [hopen, List.length_append, List.length_singleton, List.range_succ, ← ih]
  | step _ i clock op ih => rwa [ids_step]

theorem Reachable.id_of_store? [Decimals] (h : m.Reachable) (hs : m.store? i = some s) : s.keyspace.id = i := by
  obtain ⟨k, hk, rfl⟩ := Option.map_eq_some_iff.mp hs
  have hid : m.ids[i]? = some k.id := by rw [ids, List.getElem?_map, hk, Option.map_some]
  rw [h.ids_eq] at hid
  exact (List.getElem?_eq_some_iff.mp hid).2.symm.trans (List.getElem_range _)

end Multistore

end GraceStore
