import GraceStore.Proofs.Command.Outcomes

/-!
# What requests that read are answered

A request that reads is answered where no other domain owns the strings that it asks for, by a reader and by the
writer with the same reply, which the live contents and the clock decide. Where one of them is another domain's, it
is not answered at all.
-/

namespace GraceStore

namespace Object

variable {a b : Object} {d : DomainId}

theorem Binds.admits_iff (h : a.Binds d b) : b.Admits d ↔ a.Admits d := by
  rcases h with rfl | ⟨cell, rfl, hadm, rfl⟩
  · rfl
  · refine ⟨fun _ c hc => ?_, fun _ c hc => ?_⟩
    · exact Object.raw.inj hc ▸ hadm
    · exact Object.raw.inj hc ▸ Cell.admits_bind hadm

end Object

/-- A reader finds what the writer does. -/
theorem Keyspace.fst_lookup (k : Keyspace) (now : UInt64) (key : Bytes) : (k.lookup now key).1 = k.get? now key := by
  unfold lookup
  cases k.get? now key <;> rfl

namespace Store

variable {s s' : Store} {now : UInt64} {key : Bytes} {o : ObjectId}

/-- To look at a store opens no string and shuts none. -/
theorem Browses.opens_iff (h : s.Browses s') : s'.Opens o ↔ s.Opens o := by
  refine ⟨fun hopens a ha => ?_, fun hopens b hb => ?_⟩
  · obtain ⟨b, hb, hbinds⟩ := h.binds o a ha
    exact hbinds.admits_iff.mp (h.id ▸ hopens b hb)
  · have hlt : o < s.heap.next := h.next ▸ Heap.lt_of_get? hb
    obtain ⟨b', hb', hbinds⟩ := h.binds o _ (Array.getElem?_eq_getElem hlt)
    cases hb'.symm.trans hb
    exact h.id ▸ hbinds.admits_iff.mpr (hopens _ (Array.getElem?_eq_getElem hlt))

theorem Browses.opensAt_iff (h : s.Browses s') : s'.OpensAt now key ↔ s.OpensAt now key := by
  obtain ⟨hits, misses, hk⟩ := h.keyspace
  have hget : s'.keyspace.get? now key = s.keyspace.get? now key := by rw [hk]; rfl
  simp only [OpensAt, hget, h.opens_iff]

end Store

namespace Action

variable {α β : Type} {a : Action α} {f : α → Action β} {env : Env} {s s' : Store} {o : ObjectId} {x : α}

/-- An action comes upon the string of another domain. -/
def Stops (a : Action α) (env : Env) (s : Store) : Prop := ∃ s', a.run env s = (.error (.foreignDomain .mk), s')

theorem Stops.bind (h : a.Stops env s) : (a >>= f).Stops env s := by
  obtain ⟨s', hrun⟩ := h
  exact ⟨s', by rw [run_bind, hrun]⟩

theorem Stops.bind_run (hrun : a.run env s = (.ok x, s')) (h : (f x).Stops env s') : (a >>= f).Stops env s := by
  obtain ⟨s'', hrun'⟩ := h
  refine ⟨s'', ?_⟩
  rw [run_bind, hrun]
  exact hrun'

theorem Stops.reporting (h : a.Stops env s) (report : Error → α) : (Request.reporting a report).Stops env s := by
  obtain ⟨s', hrun⟩ := h
  exact ⟨s', by rw [Request.run_reporting, hrun]⟩

theorem stops_loadString (h : ¬ s.Opens o) : (loadString o).Stops env s := by
  rcases run_loadString_cases env s o with ⟨cell, hg, hadm, _⟩ | ⟨_, _, _, hrun⟩ | ⟨hraw, _⟩
  · refine absurd (fun a ha c hc => ?_) h
    cases hg.symm.trans (hc ▸ ha)
    exact hadm
  · exact ⟨s, hrun⟩
  · exact absurd (fun a ha c hc => absurd (hc ▸ ha) (hraw c)) h

theorem run_loadString_of_opens (env : Env) (h : s.Opens o) : ∃ x s', s.Browses s' ∧
    (loadString o).run env s = (.ok x, s') := by
  have hbrowses : s.Browses ((loadString o).run env s).2 := browses_loadString o
  rcases run_loadString_cases env s o with ⟨cell, _, _, hrun⟩ | ⟨cell, hg, hadm, _⟩ | ⟨_, x, hrun⟩
  · rw [hrun] at hbrowses
    exact ⟨_, _, hbrowses, hrun⟩
  · rw [h _ hg cell rfl] at hadm
    cases hadm
  · exact ⟨x, s, .refl s, hrun s rfl⟩

end Action

namespace Command

open GraceStore.Action

variable {β : Type} {env : Env} {s : Store} {key : Bytes} {keys args : List Bytes} {c : Command}

/-- The keys whose strings a command that reads asks for. -/
def viewed (c : Command) (args : List Bytes) : List Bytes :=
  match c with
  | .get | .getRange | .substr | .strLen => args.take 1
  | .mGet => args
  | _ => []

/-! ## Strings that may be read -/

theorem run_lookup (env : Env) (s : Store) (key : Bytes) : ∃ s', s.Browses s' ∧
    (lookup key).run env s = (.ok (s.keyspace.get? env.now key), s') := by
  have hbrowses : s.Browses ((apply (·.lookup env.now key)).run env s).2 := browses_lookup env.now key
  rw [← Keyspace.fst_lookup]
  exact ⟨_, hbrowses, rfl⟩

theorem fares_countFound (keys : List Bytes) : (countFound keys).Fares env s (fun _ _ => True) fun _ => False := by
  induction keys generalizing s with
  | nil => exact .pure trivial
  | cons key keys ih =>
      obtain ⟨s₁, _, hrun⟩ := run_lookup env s key
      exact .bind_run hrun (ih.bind fun _ _ _ => .pure trivial)

/-- The first string that may be read is read, and then the others. -/
theorem run_readAll_cons (h : s.OpensAt env.now key) (keys : List Bytes) : ∃ x s', s.Browses s' ∧
    (readAll (key :: keys)).run env s = Action.run (do
      let rest ← readAll keys
      return stringReply x :: rest) env s' := by
  obtain ⟨s₁, hbrowses, hrun⟩ := run_lookup env s key
  rw [readAll, run_bind, hrun]
  cases hg : s.keyspace.get? env.now key with
  | none => exact ⟨none, s₁, hbrowses, rfl⟩
  | some o =>
      have hopens : s₁.Opens o := hbrowses.opens_iff.mpr (h o hg)
      obtain ⟨x, s₂, hbrowses₂, hload⟩ := run_loadString_of_opens env hopens
      refine ⟨x, s₂, hbrowses.trans hbrowses₂, ?_⟩
      show (loadString o >>= _).run env s₁ = _
      rw [run_bind, hload]

theorem fares_readAll (h : ∀ key ∈ keys, s.OpensAt env.now key) :
    (readAll keys).Fares env s (fun _ _ => True) fun _ => False := by
  induction keys generalizing s with
  | nil => exact .pure trivial
  | cons key keys ih =>
      obtain ⟨x, s', hbrowses, hrun⟩ := run_readAll_cons (h key List.mem_cons_self) keys
      unfold Fares
      rw [hrun]
      exact (ih fun k hk => hbrowses.opensAt_iff.mpr (h k (List.mem_cons_of_mem _ hk))).bind fun _ _ _ =>
        .pure trivial

theorem fares_getRangeOf (h : s.OpensAt env.now key) (first last : Bytes) :
    (getRangeOf key first last).Fares env s (fun _ _ => True) fun _ => False := by
  refine (fares_integerArgument first).bind fun _ s₁ hs₁ => ?_
  refine (fares_integerArgument last).bind fun _ s₂ hs₂ => ?_
  subst hs₁ hs₂
  refine (fares_readString h).bind fun value _ _ => ?_
  cases value with
  | none | some => exact .pure trivial

/-- A command that reads is answered if no other domain owns the strings that it asks for. -/
theorem fares_answer (h : ∀ key ∈ c.viewed args, s.OpensAt env.now key) :
    (Request.answer c args).Fares env s (fun _ _ => True) fun _ => False := by
  unfold Request.answer
  split
  · exact (fares_readString (h _ List.mem_cons_self)).bind fun _ _ _ => .pure trivial
  · exact fares_getRangeOf (h _ List.mem_cons_self) _ _
  · exact fares_getRangeOf (h _ List.mem_cons_self) _ _
  · exact (fares_readAll h).bind fun _ _ _ => .pure trivial
  · exact (fares_readString (h _ List.mem_cons_self)).bind fun _ _ _ => .pure trivial
  · exact (fares_countFound _).bind fun _ _ _ => .pure trivial
  · exact .bind_run run_keyspace (.bind_run run_now (.pure trivial))
  · exact .bind_run run_keyspace (.bind_run run_now (.pure trivial))
  · exact .fail _

/-! ## Strings of other domains -/

theorem stops_lookup_then {f : Option ObjectId → Action β} (h : ¬ s.OpensAt env.now key)
    (hf : ∀ o s', ¬ s'.Opens o → (f (some o)).Stops env s') : (lookup key >>= f).Stops env s := by
  obtain ⟨s₁, hbrowses, hrun⟩ := run_lookup env s key
  obtain ⟨o, ho⟩ := not_forall.mp h
  obtain ⟨hg, hshut⟩ := Classical.not_imp.mp ho
  rw [hg] at hrun
  exact .bind_run hrun (hf o s₁ fun hopens => hshut (hbrowses.opens_iff.mp hopens))

theorem stops_readString (h : ¬ s.OpensAt env.now key) : (readString key).Stops env s :=
  stops_lookup_then h fun _ _ hshut => (stops_loadString hshut).bind

theorem stops_getString (h : ¬ s.OpensAt env.now key) : (getString key).Stops env s := (stops_readString h).bind

theorem stops_stringLength (h : ¬ s.OpensAt env.now key) : (stringLength key).Stops env s := (stops_readString h).bind

theorem stops_getRangeOf {first last : Bytes} {start stop : Int64} (h : ¬ s.OpensAt env.now key)
    (hf : Integer.parse? first = some start) (hl : Integer.parse? last = some stop) :
    (getRangeOf key first last).Stops env s := by
  unfold getRangeOf integerArgument
  rw [hf, hl]
  exact .bind_run (run_pure _) (.bind_run (run_pure _) (stops_readString h).bind)

/-- One string of another domain is enough to stop a command that asks for several. -/
theorem stops_readAll (hk : key ∈ keys) (h : ¬ s.OpensAt env.now key) : (readAll keys).Stops env s := by
  induction keys generalizing s with
  | nil => cases hk
  | cons first keys ih =>
      by_cases hfirst : s.OpensAt env.now first
      · have hmem : key ∈ keys := (List.mem_cons.mp hk).resolve_left fun hkey => h (hkey ▸ hfirst)
        obtain ⟨x, s', hbrowses, hrun⟩ := run_readAll_cons hfirst keys
        obtain ⟨s'', hstops⟩ := (ih hmem fun hopens => h (hbrowses.opensAt_iff.mp hopens)).bind
        exact ⟨s'', hrun.trans hstops⟩
      · exact stops_lookup_then hfirst fun _ _ hshut => (stops_loadString hshut).bind

theorem stops_getMany (hk : key ∈ keys) (h : ¬ s.OpensAt env.now key) : (getMany keys).Stops env s :=
  (stops_readAll hk h).bind

end Command

/-- The reply of a command that ends so. -/
def Reply.ofExcept : Except Error Reply → Reply
  | .ok r => r
  | .error e => .ofError e

/-! ## In reachable states -/

namespace Multistore

open GraceStore.Action

variable {m : Multistore} {i : DomainId} {now : UInt64} {s : Store} {c : Command} {args : List Bytes}

/-- However a command that reads is spelled, a reader and the writer give the same reply. -/
def Replies [Decimals] (m : Multistore) (i : DomainId) (now : UInt64) (c : Command) (args : List Bytes) (r : Reply) :
    Prop :=
  ∀ name, Request.command? (name :: args) = .ok c →
    (m.step i now (.read (name :: args))).1 = .reply r ∧
      (m.step i now (.write (name :: args))).1 = .executed { reply := r }

/-- However a command that reads is spelled, a reader and the writer come upon the string of another domain. -/
def Stops [Decimals] (m : Multistore) (i : DomainId) (now : UInt64) (c : Command) (args : List Bytes) : Prop :=
  ∀ name, Request.command? (name :: args) = .ok c →
    (m.step i now (.read (name :: args))).1 = .failed (.foreignDomain .mk) ∧
      (m.step i now (.write (name :: args))).1 = .failed (.foreignDomain .mk)

/-- What the writer of a keyspace and its readers answer to a request that reads comes from one run. -/
theorem fst_step_of_read [Decimals] (hs : m.store? i = some s) {argv : List Bytes} (hc : Request.command? argv = .ok c)
    (hw : c.isWrite = false) {r : Except Failure Reply} {s' : Store}
    (hrun : (Request.processRead argv).run (m.env i now) s = (r, s')) :
    (∀ x, r = .ok x → (m.step i now (.read argv)).1 = .reply x ∧
      (m.step i now (.write argv)).1 = .executed { reply := x }) ∧
    ∀ why, r = .error why → (m.step i now (.read argv)).1 = .failed why ∧
      (m.step i now (.write argv)).1 = .failed why := by
  have hread : m.step i now (.read argv) = m.perform i now (.reply <$> Request.processRead argv) := rfl
  have hwrite : m.step i now (.write argv) = m.perform i now (.executed <$> Request.processWrite argv) := rfl
  rw [hread, hwrite, perform_map hs, perform_map hs, Request.processWrite_of_read hc hw, run_bind, hrun]
  refine ⟨?_, ?_⟩
  · rintro x rfl
    exact ⟨rfl, rfl⟩
  · rintro why rfl
    exact ⟨rfl, rfl⟩

/-- A command that reads is answered by what is live, if no other domain owns the strings that it asks for. -/
theorem Reachable.replies [Decimals] (h : m.Reachable) (hs : m.store? i = some s) (hw : c.isWrite = false)
    (hopens : ∀ key ∈ c.viewed args, s.OpensAt now key) :
    m.Replies i now c args (.ofExcept ((s.ledger.live now).answer now c args)) := by
  intro name hc
  have hanswer : (Request.answer c args).Fares (m.env i now) s (fun _ _ => True) fun _ => False :=
    Command.fares_answer hopens
  have hfares : (Request.processRead (name :: args)).Fares (m.env i now) s (fun _ _ => True) fun _ => False := by
    rw [Request.processRead_of_read hc hw]
    exact hanswer.reporting _
  obtain ⟨s', _, ⟨r, hrun, hscript, _⟩ | ⟨e, _, hscript⟩⟩ :=
    Meets.run_of_fares (Request.carries_processRead (name :: args)) hfares (h.sound.toStore hs) fun _ ho => ho.1
  · have hreply : r = .ofExcept ((s.ledger.live now).answer now c args) := by
      refine (Except.ok.inj (congrArg Prod.fst hscript)).trans ?_
      rw [Request.reading_of_read hc hw]
      rfl
    subst hreply
    exact (fst_step_of_read hs hc hw hrun).1 _ rfl
  · cases congrArg Prod.fst hscript

theorem stops_of_answer [Decimals] (hs : m.store? i = some s) (hw : c.isWrite = false)
    (h : (Request.answer c args).Stops (m.env i now) s) : m.Stops i now c args := by
  intro name hc
  have hstops : (Request.processRead (name :: args)).Stops (m.env i now) s := by
    rw [Request.processRead_of_read hc hw]
    exact h.reporting _
  obtain ⟨s', hrun⟩ := hstops
  exact (fst_step_of_read hs hc hw hrun).2 _ rfl

end Multistore

end GraceStore
