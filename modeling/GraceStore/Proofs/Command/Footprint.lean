import GraceStore.Proofs.Command.Looks

/-!
# The footprint of a command

Whatever is stored, a command touches only the keys it names, does its deeds after it has made sure that
it will not fail or refuse, counts every edit, and passes on another request only when that request does
what it has done itself.
-/

namespace GraceStore

open Script (Step)

/-- The keys that the arguments of a command name. -/
def Command.keys (c : Command) (args : List Bytes) : List Bytes :=
  match c with
  | .del => args
  | .mSet | .mSetNx => ((pairs? args).getD []).map (·.1)
  | _ => args.take 1

/-- What a conditional command replies when it refuses to write. -/
def Command.refusal? : Command → Option Reply
  | .set => some .null
  | .setNx | .mSetNx => some (.integer 0)
  | _ => none

/-- A command has failed, or refused to write. -/
def Command.Declined (c : Command) : Except Error Executed → Prop
  | .error _ => True
  | .ok e => e.reply.isError = true ∨ c.refusal? = some e.reply

/-- The steps that a command may make, by what it ends with. -/
structure Footprint (c : Command) (args : List Bytes) (ms : List Step) (r : Except Error Executed) : Prop where
  named : ∀ m ∈ ms, ∀ key ∈ m.key?, key ∈ c.keys args
  declined : c.Declined r → ∀ m ∈ ms, m.isDeed = false
  counted : args.length < 2 ^ 64 → (ms.map Step.weight).sum < 2 ^ 64 ∧
    ((∃ m ∈ ms, m.isEdit = true) → 0 < (ms.map Step.weight).sum)
  rewritten : ∀ e words, r = .ok e → e.rewrite = some words → ∃ key text kind name,
    words = [Bytes.ofString "SET", key, text] ∧
    ms = [.look key, .deed (.put key (.string text) .kept), .deed (.count 1), .deed (.report kind name key)]

namespace Command

variable {c : Command} {args keys : List Bytes} {key value : Bytes}

theorem not_declined {r : Reply} (hc : c.refusal? = none) (hr : r.isError = false) :
    ¬ c.Declined (.ok { reply := r }) := by
  simp [Declined, hc, hr]

theorem length_of_pairs? : ∀ {args : List Bytes} {kvs : List (Bytes × Bytes)}, pairs? args = some kvs →
    args.length = 2 * kvs.length
  | [], kvs, h => by
      cases Option.some.inj h
      rfl
  | [_], kvs, h => by cases h
  | key :: value :: rest, kvs, h => by
      obtain ⟨kvs', h', rfl⟩ := Option.map_eq_some_iff.mp h
      simp only [List.length_cons, length_of_pairs? h']
      omega

theorem mem_of_pairs? : ∀ {args : List Bytes} {kvs : List (Bytes × Bytes)}, pairs? args = some kvs →
    ∀ kv ∈ kvs, kv.1 ∈ args ∧ kv.2 ∈ args
  | [], kvs, h, kv, hkv => by
      cases Option.some.inj h
      cases hkv
  | [_], kvs, h, _, _ => by cases h
  | key :: value :: rest, kvs, h, kv, hkv => by
      obtain ⟨kvs', h', rfl⟩ := Option.map_eq_some_iff.mp h
      rcases List.mem_cons.mp hkv with rfl | hkv
      · exact ⟨List.mem_cons_self, List.mem_cons_of_mem _ List.mem_cons_self⟩
      · have hmem {a : Bytes} (ha : a ∈ rest) : a ∈ key :: value :: rest :=
          List.mem_cons_of_mem _ (List.mem_cons_of_mem _ ha)
        exact (mem_of_pairs? h' kv hkv).imp hmem hmem

end Command

namespace Footprint

open Script

variable {c : Command} {args : List Bytes} {key : Bytes} {ms before : List Step} {e : Executed}

theorem of_quiet {r : Except Error Executed} (h : Quiet (c.keys args) ms)
    (hr : ∀ e, r = .ok e → e.rewrite = none) : Footprint c args ms r where
  named := h.named
  declined _ := h.not_isDeed
  counted _ := by
    rw [h.weight]
    refine ⟨by decide, fun ⟨m, hm, hedit⟩ => ?_⟩
    rw [h.not_isEdit m hm] at hedit
    cases hedit
  rewritten e words he hw := by
    rw [hr e he] at hw
    cases hw

/-- After looks alone, one value is put, one change counted, and events are reported. -/
theorem of_put {v : Value} {life : Lifetime} {reports : List Step} (h : Quiet (c.keys args) before)
    (hk : key ∈ c.keys args) (hreports : ∀ m ∈ reports, ∃ kind name k, m = .deed (.report kind name k))
    (haccepts : ¬ c.Declined (.ok e)) (hr : e.rewrite = none) :
    Footprint c args (before ++ (.deed (.put key v life) :: .deed (.count 1) :: reports)) (.ok e) where
  named m hm k hkey := by
    rcases List.mem_append.mp hm with hm | hm
    · exact h.named m hm k hkey
    · rcases List.mem_cons.mp hm with rfl | hm
      · cases Option.some.inj hkey
        exact hk
      · rcases List.mem_cons.mp hm with rfl | hm
        · cases hkey
        · obtain ⟨_, _, _, rfl⟩ := hreports m hm
          cases hkey
  declined hd := absurd hd haccepts
  counted _ := by
    have hreported : (reports.map Step.weight).sum = 0 := by
      refine List.sum_eq_zero_iff_forall_eq_nat.mpr fun n hn => ?_
      obtain ⟨m, hm, rfl⟩ := List.mem_map.mp hn
      obtain ⟨_, _, _, rfl⟩ := hreports m hm
      rfl
    have hsum : ((before ++ (.deed (.put key v life) :: .deed (.count 1) :: reports)).map Step.weight).sum = 1 := by
      simp only [List.map_append, List.map_cons, List.sum_append, List.sum_cons, h.weight, hreported]
      rfl
    rw [hsum]
    exact ⟨by decide, fun _ => Nat.one_pos⟩
  rewritten e' words he hw := by
    cases he
    rw [hr] at hw
    cases hw

end Footprint

namespace Script

/-- After looks alone, the script goes on as the command may. -/
def Treads (c : Command) (args : List Bytes) (p : Script Executed) : Prop :=
  ∀ before, Quiet (c.keys args) before → p.Every (Footprint c args) before

namespace Treads

variable {α : Type} {c : Command} {args : List Bytes} {key : Bytes} {p : Script α} {f : α → Script Executed}
  {e : Error} {r : Reply}

theorem failed : (failed e : Script Executed).Treads c args := fun _ h => .of_quiet h nofun

theorem done : (done { reply := r } : Script Executed).Treads c args :=
  fun _ h => .of_quiet h fun _ he => by cases he; rfl

theorem bind (hp : p.Looks (c.keys args)) (hf : ∀ a, (f a).Treads c args) : (p >>= f).Treads c args := by
  intro before h
  refine every_bind.mpr ((hp before h).mono fun ms r hms => ?_)
  cases r with
  | ok a => exact hf a ms hms
  | error e => exact .of_quiet hms nofun

theorem put {v : Value} {life : Lifetime} {kind : EventClass} {name : String} {k : Bytes}
    (hk : key ∈ c.keys args) (haccepts : ¬ c.Declined (.ok { reply := r })) :
    (do act (.put key v life)
        act (.count 1)
        act (.report kind name k)
        return { reply := r } : Script Executed).Treads c args := by
  intro before h
  have hfoot : Footprint c args (before ++ [.deed (.put key v life), .deed (.count 1), .deed (.report kind name k)])
      (.ok { reply := r }) := .of_put h hk (by simp) haccepts rfl
  show Footprint c args (before ++ [_] ++ [_] ++ [_]) _
  simpa using hfoot

theorem put_expire {v : Value} {life : Lifetime} {kind kind' : EventClass} {name name' : String} {k k' : Bytes}
    (hk : key ∈ c.keys args) (haccepts : ¬ c.Declined (.ok { reply := r })) :
    (do act (.put key v life)
        act (.count 1)
        act (.report kind name k)
        act (.report kind' name' k')
        return { reply := r } : Script Executed).Treads c args := by
  intro before h
  have hfoot : Footprint c args (before ++ [.deed (.put key v life), .deed (.count 1),
      .deed (.report kind name k), .deed (.report kind' name' k')]) (.ok { reply := r }) :=
    .of_put h hk (by simp) haccepts rfl
  show Footprint c args (before ++ [_] ++ [_] ++ [_] ++ [_]) _
  simpa using hfoot

end Treads

variable {c : Command} {args : List Bytes} {key : Bytes}

theorem treads_setGeneric {c' : Command} {options : SetOptions} {value : Bytes} {okReply abortReply : Reply}
    (hk : key ∈ c.keys args) (haccepts : ¬ c.Declined (.ok { reply := okReply })) :
    (setGeneric c' options key value okReply abortReply).Treads c args := by
  refine Treads.bind (looks_expire c' options.expire) fun ttl => ?_
  refine Treads.bind (looks_conditionHolds options.condition hk) fun holds => ?_
  cases holds with
  | false => exact .done
  | true =>
      cases ttl with
      | none => exact .put hk haccepts
      | some ms => exact .put_expire hk haccepts

theorem treads_getSetKey {value : Bytes} (hk : key ∈ c.keys args) (hc : c.refusal? = none) :
    (getSetKey key value).Treads c args := by
  refine Treads.bind (looks_string hk) fun old => .put hk (Command.not_declined hc ?_)
  cases old <;> rfl

theorem treads_setRangeOf {offset value : Bytes} (hk : key ∈ c.keys args) (hc : c.refusal? = none) :
    (setRangeOf key offset value).Treads c args := by
  refine Treads.bind .ofExcept fun n => ?_
  split
  · exact .failed
  · refine Treads.bind (looks_string hk) fun old => ?_
    split
    · exact .done
    · exact Treads.bind (looks_checkLength _) fun _ => .put hk (Command.not_declined hc rfl)

theorem treads_appendTo {value : Bytes} (hk : key ∈ c.keys args) (hc : c.refusal? = none) :
    (appendTo key value).Treads c args := by
  refine Treads.bind (looks_string hk) fun old => ?_
  cases old with
  | none =>
      simp only
      split
      · exact .done
      · exact .put hk (Command.not_declined hc rfl)
  | some old =>
      exact Treads.bind (looks_checkLength _) fun _ => .put hk (Command.not_declined hc rfl)

theorem treads_addInteger {increment : Int64} (hk : key ∈ c.keys args) (hc : c.refusal? = none) :
    (addInteger key increment).Treads c args := by
  refine Treads.bind (looks_string hk) fun old => ?_
  refine Treads.bind looks_start fun start => ?_
  cases Integer.add? start increment with
  | none => exact .failed
  | some sum =>
      exact .put hk (Command.not_declined hc rfl)

/-- Where the sum is put, it is also what is passed on. -/
theorem every_putSum [Decimals] {key increment : Bytes} (start : LongFloat) :
    Every (Footprint .incrByFloat [key, increment]) [.look key] (do
      match LongFloat.parse? increment with
      | none => failed (.refused .notAFloat)
      | some n =>
        match start.add? n with
        | none => failed (.refused .sumNotFinite)
        | some sum =>
          act (.put key (.string sum.render) .kept)
          act (.count 1)
          act (.report .string "incrbyfloat" key)
          return { reply := .bulk sum.render, rewrite := some [Bytes.ofString "SET", key, sum.render] }) := by
  have hk : key ∈ Command.keys .incrByFloat [key, increment] := List.mem_cons_self
  have hlook := Quiet.nil.look hk
  cases LongFloat.parse? increment with
  | none => exact .of_quiet hlook nofun
  | some n =>
      simp only
      cases start.add? n with
      | none => exact .of_quiet hlook nofun
      | some sum =>
          have hfoot : Footprint .incrByFloat [key, increment] ([.look key] ++
              [.deed (.put key (.string sum.render) .kept), .deed (.count 1),
                .deed (.report .string "incrbyfloat" key)]) (.ok { reply := .bulk sum.render }) :=
            .of_put hlook hk (by simp) (Command.not_declined rfl rfl) rfl
          exact { hfoot with
            rewritten := fun e words he hw => by
              cases he
              cases hw
              exact ⟨key, sum.render, _, _, rfl, rfl⟩ }

theorem every_addFloat [Decimals] {key increment : Bytes} :
    (addFloat key increment).Every (Footprint .incrByFloat [key, increment]) [] := by
  have hlook : Quiet (Command.keys .incrByFloat [key, increment]) [.look key] :=
    Quiet.nil.look List.mem_cons_self
  intro v
  cases v with
  | none => exact every_putSum .zero
  | some v =>
      cases v with
      | list items => exact .of_quiet hlook nofun
      | string data =>
          show Every _ _ (ofExcept (StringValue.raw data).toLongFloat >>= _)
          cases (StringValue.raw data).toLongFloat with
          | error e => exact .of_quiet hlook nofun
          | ok start => exact every_putSum start

/-! ## Several keys -/

/-- What MSET does for its pairs. -/
def pairSteps (kvs : List (Bytes × Bytes)) : List Step :=
  kvs.flatMap fun kv => [.deed (.put kv.1 (.string kv.2) .forever), .deed (.report .string "set" kv.1)]

theorem every_setPairs {Q : List Step → Except Error Unit → Prop} :
    ∀ (kvs : List (Bytes × Bytes)) (before : List Step),
      (setPairs kvs).Every Q before ↔ Q (before ++ pairSteps kvs) (.ok ())
  | [], before => by
      rw [pairSteps, List.flatMap_nil, List.append_nil]
      exact Iff.rfl
  | (key, value) :: kvs, before => by
      have hsteps : before ++ pairSteps ((key, value) :: kvs) =
          before ++ [.deed (.put key (.string value) .forever)] ++ [.deed (.report .string "set" key)] ++
            pairSteps kvs := by
        simp [pairSteps]
      rw [hsteps]
      exact every_setPairs kvs _

theorem mem_pairSteps {kvs : List (Bytes × Bytes)} {m : Step} (h : m ∈ pairSteps kvs) :
    m.weight = 0 ∧ ∃ kv ∈ kvs, ∀ key ∈ m.key?, key = kv.1 := by
  obtain ⟨kv, hkv, hm⟩ := List.mem_flatMap.mp h
  rcases List.mem_cons.mp hm with rfl | hm
  · exact ⟨rfl, kv, hkv, fun key hkey => (Option.some.inj hkey).symm⟩
  · cases List.mem_singleton.mp hm
    exact ⟨rfl, kv, hkv, nofun⟩

theorem weight_pairSteps (kvs : List (Bytes × Bytes)) : ((pairSteps kvs).map Step.weight).sum = 0 := by
  refine List.sum_eq_zero_iff_forall_eq_nat.mpr fun n hn => ?_
  obtain ⟨m, hm, rfl⟩ := List.mem_map.mp hn
  exact (mem_pairSteps hm).1

theorem treads_setPairs {c : Command} {args : List Bytes} {kvs : List (Bytes × Bytes)} {r : Reply}
    (hp : Command.pairs? args = some kvs) (hkeys : c.keys args = kvs.map (·.1))
    (haccepts : ¬ c.Declined (.ok { reply := r })) :
    (do setPairs kvs
        act (.count (UInt64.ofNat kvs.length))
        return { reply := r } : Script Executed).Treads c args := by
  intro before h
  refine every_bind.mpr ((every_setPairs kvs before).mpr ?_)
  have hweight : ((before ++ pairSteps kvs ++ [Step.deed (.count (UInt64.ofNat kvs.length))]).map
      Step.weight).sum = kvs.length % 2 ^ 64 := by
    simp [h.weight, weight_pairSteps, Step.weight, Deed.weight]
  have hcases {m : Step} (hm : m ∈ before ++ pairSteps kvs ++ [.deed (.count (UInt64.ofNat kvs.length))]) :
      m ∈ before ∨ m ∈ pairSteps kvs ∨ m = .deed (.count (UInt64.ofNat kvs.length)) := by
    simpa using hm
  exact {
    named := fun m hm key hkey => by
      rcases hcases hm with hm | hm | rfl
      · exact h.named m hm key hkey
      · obtain ⟨kv, hkv, hkey'⟩ := (mem_pairSteps hm).2
        rw [hkeys, hkey' key hkey]
        exact List.mem_map_of_mem hkv
      · cases hkey
    declined := fun hd => absurd hd haccepts
    counted := fun hargs => by
      -- the count is a 64-bit number, and no request has that many pairs
      have hlength : args.length = 2 * kvs.length := Command.length_of_pairs? hp
      rw [hweight, Nat.mod_eq_of_lt (by omega)]
      refine ⟨by omega, fun ⟨m, hm, hedit⟩ => ?_⟩
      rcases hcases hm with hm | hm | rfl
      · rw [h.not_isEdit m hm] at hedit
        cases hedit
      · obtain ⟨kv, hkv, _⟩ := (mem_pairSteps hm).2
        exact List.length_pos_of_mem hkv
      · cases hedit
    rewritten := fun e words he hw => by
      cases he
      cases hw }

theorem treads_setMany {c : Command} {args : List Bytes} {onlyMissing : Bool}
    (hkeys : c.keys args = ((Command.pairs? args).getD []).map (·.1))
    (haccepts : ¬ c.Declined (.ok { reply := if onlyMissing then .integer 1 else .ok })) :
    (setMany onlyMissing args).Treads c args := by
  unfold setMany
  cases hp : Command.pairs? args with
  | none => exact .failed
  | some kvs =>
      rw [hp, Option.getD_some] at hkeys
      have hset (busy : Nat) : Treads c args (
          if 0 < busy then return { reply := .integer 0 }
          else do
            setPairs kvs
            act (.count (UInt64.ofNat kvs.length))
            return { reply := if onlyMissing then .integer 1 else .ok }) := by
        split
        · exact .done
        · exact treads_setPairs hp hkeys haccepts
      cases onlyMissing with
      | false => exact hset 0
      | true => exact .bind (looks_countPresent fun key hk => hkeys ▸ hk) hset

/-- Steps on some of the keys, with at most `n` changes, and with one if there is an edit. -/
structure Counts (keys : List Bytes) (n : Nat) (ms : List Step) : Prop where
  named : ∀ m ∈ ms, ∀ key ∈ m.key?, key ∈ keys
  weight : (ms.map Step.weight).sum ≤ n
  edits : (∃ m ∈ ms, m.isEdit = true) → 0 < (ms.map Step.weight).sum

theorem Quiet.counts {keys : List Bytes} {ms : List Step} (h : Quiet keys ms) : Counts keys 0 ms where
  named := h.named
  weight := Nat.le_of_eq h.weight
  edits := fun ⟨m, hm, hedit⟩ => by
    rw [h.not_isEdit m hm] at hedit
    cases hedit

theorem Counts.append {keys : List Bytes} {n k : Nat} {ms ms' : List Step} (h : Counts keys n ms)
    (h' : Counts keys k ms') : Counts keys (n + k) (ms ++ ms') where
  named m hm := (List.mem_append.mp hm).elim (h.named m) (h'.named m)
  weight := by
    rw [List.map_append, List.sum_append]
    exact Nat.add_le_add h.weight h'.weight
  edits := fun ⟨m, hm, hedit⟩ => by
    rw [List.map_append, List.sum_append]
    rcases List.mem_append.mp hm with hm | hm
    · exact Nat.add_pos_left (h.edits ⟨m, hm, hedit⟩) _
    · exact Nat.add_pos_right _ (h'.edits ⟨m, hm, hedit⟩)

theorem counts_erase {keys : List Bytes} {key : Bytes} (hk : key ∈ keys) : Counts keys 1
    [.look key, .deed (.erase key), .deed (.count 1), .deed (.report .generic "del" key)] where
  named := by simp [Step.key?, hk]
  weight := Nat.le_refl 1
  edits := fun _ => Nat.one_pos

theorem every_removeAll {keys wanted : List Bytes} {n : Nat} {before : List Step} (h : Counts keys n before)
    (hw : ∀ key ∈ wanted, key ∈ keys) :
    (removeAll wanted).Every (fun ms r => (∃ k, r = .ok k) ∧ Counts keys (n + wanted.length) ms) before := by
  induction wanted generalizing n before with
  | nil => exact ⟨⟨0, rfl⟩, h⟩
  | cons key wanted ih =>
      have hkey : key ∈ keys := hw key List.mem_cons_self
      have hrest {ms : List Step} (hms : Counts keys (n + 1) ms) (x : Nat) : Every (fun ms r => (∃ k, r = .ok k) ∧
          Counts keys (n + (key :: wanted).length) ms) ms (do
            let n ← removeAll wanted
            return x + n) := by
        have hmore := ih hms fun k hk => hw k (List.mem_cons_of_mem _ hk)
        refine every_bind.mpr (hmore.mono fun ms r ⟨⟨k, hr⟩, hc⟩ => ?_)
        cases hr
        rw [Nat.add_right_comm] at hc
        exact ⟨⟨_, rfl⟩, hc⟩
      intro v
      cases v with
      | none =>
          have hlook : Counts keys (n + 0) (before ++ [.look key]) := h.append (Quiet.nil.look hkey).counts
          exact hrest { hlook with weight := Nat.le_succ_of_le hlook.weight } 0
      | some v =>
          have herase := h.append (counts_erase hkey)
          rw [List.append_cons, List.append_cons, List.append_cons] at herase
          exact hrest herase 1

theorem treads_delKeys {args : List Bytes} : (delKeys args).Treads .del args := by
  intro before h
  refine every_bind.mpr ((every_removeAll h.counts fun _ hk => hk).mono fun ms r ⟨⟨k, hr⟩, hc⟩ => ?_)
  cases hr
  rw [Nat.zero_add] at hc
  exact {
    named := hc.named
    declined := fun hd => absurd hd (Command.not_declined rfl rfl)
    counted := fun hargs => ⟨Nat.lt_of_le_of_lt hc.weight hargs, hc.edits⟩
    rewritten := fun e words he hw => by
      cases he
      cases hw }

/-! ## Commands -/

theorem every_ofCommand [Decimals] (c : Command) (args : List Bytes) :
    (ofCommand c args).Every (Footprint c args) [] := by
  unfold ofCommand
  split
  · refine Treads.bind .ofExcept (fun options => treads_setGeneric List.mem_cons_self ?_) [] .nil
    simp [Command.Declined, Reply.isError, Command.refusal?]
  · refine treads_setGeneric List.mem_cons_self ?_ [] .nil
    simp [Command.Declined, Reply.isError, Command.refusal?]
  · exact treads_setGeneric List.mem_cons_self (Command.not_declined rfl rfl) [] .nil
  · exact treads_setGeneric List.mem_cons_self (Command.not_declined rfl rfl) [] .nil
  · exact treads_getSetKey List.mem_cons_self rfl [] .nil
  · exact treads_appendTo List.mem_cons_self rfl [] .nil
  · exact treads_setRangeOf List.mem_cons_self rfl [] .nil
  · exact treads_setMany rfl (Command.not_declined rfl rfl) [] .nil
  · refine treads_setMany rfl ?_ [] .nil
    simp [Command.Declined, Reply.isError, Command.refusal?]
  · exact treads_addInteger List.mem_cons_self rfl [] .nil
  · exact treads_addInteger List.mem_cons_self rfl [] .nil
  · exact Treads.bind .ofExcept (fun n => treads_addInteger List.mem_cons_self rfl) [] .nil
  · refine Treads.bind .ofExcept (fun n => ?_) [] .nil
    split
    · exact treads_addInteger List.mem_cons_self rfl
    · exact .failed
  · exact every_addFloat
  · exact treads_delKeys [] .nil
  · exact .of_quiet .nil nofun

end Script

end GraceStore
