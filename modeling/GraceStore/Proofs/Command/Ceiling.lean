import GraceStore.Proofs.Command.Journal
import GraceStore.Proofs.Number.Lengths

/-!
# The strings that commands leave

Which strings a command would leave under its keys if it went through, and that it leaves no others. A request that
would leave a longer string than there may be outgrows the ceiling. Some arguments of a command may be stored as they
come, and nothing measures them.
-/

namespace GraceStore

/-- The string of a key as an edit finds it, empty where there is none. -/
def Contents.data (c : Contents) (key : Bytes) : Bytes :=
  match c key with
  | some ⟨.string data, _⟩ => data
  | _ => []

/-- The arguments that a command may store unmeasured. -/
def Command.unmeasured (c : Command) (args : List Bytes) : List Bytes :=
  match c, args with
  | .set, _ :: value :: _ => [value]
  | .setNx, [_, value] | .getSet, [_, value] | .append, [_, value] => [value]
  | .setEx, [_, _, value] | .pSetEx, [_, _, value] => [value]
  | .mSet, args | .mSetNx, args => ((pairs? args).getD []).map (·.2)
  | _, _ => []

/-- The strings that a command would leave. A counter leaves the text of an integer, or of a sum. -/
inductive Command.Leaves [Decimals] (live : Contents) : Command → List Bytes → Bytes → Bytes → Prop
  | set {key value : Bytes} {words : List Bytes} : Leaves live .set (key :: value :: words) key value
  | setNx {key value : Bytes} : Leaves live .setNx [key, value] key value
  | setEx {key seconds value : Bytes} : Leaves live .setEx [key, seconds, value] key value
  | pSetEx {key millis value : Bytes} : Leaves live .pSetEx [key, millis, value] key value
  | getSet {key value : Bytes} : Leaves live .getSet [key, value] key value
  | append {key value : Bytes} : Leaves live .append [key, value] key (live.data key ++ value)
  | setRange {key offset value : Bytes} {n : Int64} (hn : Integer.parse? offset = some n) (hpos : ¬ n < 0)
      (hv : value.isEmpty = false) :
      Leaves live .setRange [key, offset, value] key (Bytes.patchAt (live.data key) n.toInt.toNat value)
  | mSet {args : List Bytes} {kvs : List (Bytes × Bytes)} {key value : Bytes} (h : pairs? args = some kvs)
      (hkv : (key, value) ∈ kvs) : Leaves live .mSet args key value
  | mSetNx {args : List Bytes} {kvs : List (Bytes × Bytes)} {key value : Bytes} (h : pairs? args = some kvs)
      (hkv : (key, value) ∈ kvs) : Leaves live .mSetNx args key value
  | count {c : Command} {key : Bytes} {rest : List Bytes} (hc : c ∈ [.incr, .decr, .incrBy, .decrBy]) (sum : Int64) :
      Leaves live c (key :: rest) key (Integer.render sum)
  | countFloat {key increment : Bytes} {a b sum : LongFloat} (h : a.add? b = some sum) :
      Leaves live .incrByFloat [key, increment] key sum.render

namespace Ledger

/-- Every string is one that was there, or one that `W` allows. -/
def Gains (W : Bytes → Bytes → Prop) (l l' : Ledger) : Prop :=
  ∀ key data, l'.value? key = some (.string data) → l.value? key = some (.string data) ∨ W key data

variable {W : Bytes → Bytes → Prop} {l l' l'' : Ledger} {now : UInt64} {key : Bytes}

theorem Gains.refl : Gains W l l := fun _ _ h => .inl h

theorem Gains.trans (h : Gains W l l') (h' : Gains W l' l'') : Gains W l l'' :=
  fun key data hd => (h' key data hd).elim (h key data) .inr

theorem value?_setItem_none_of_some {other : Bytes} {v : Value}
    (h : (l.setItem key none).value? other = some v) : l.value? other = some v := by
  by_cases ho : other = key
  · rw [ho, value?_setItem_self] at h
    cases h
  · rwa [value?_setItem_of_ne ho] at h

theorem gains_check : Gains W l (l.check now key) := by
  intro other data h
  unfold check at h
  split at h
  · exact .inl (value?_setItem_none_of_some h)
  · exact .inl h

theorem gains_perform {d : Deed}
    (hd : ∀ key v life, d = .put key v life → ∃ data, v = .string data ∧ W key data) : Gains W l (l.perform now d) := by
  intro other data h
  cases d with
  | put key v life =>
      by_cases ho : other = key
      · obtain ⟨data', rfl, hW⟩ := hd key v life rfl
        rw [ho, perform, value?_setItem_self] at h
        cases h
        exact .inr (ho ▸ hW)
      · rw [perform, value?_setItem_of_ne ho] at h
        exact .inl h
  | erase key => exact .inl (value?_setItem_none_of_some h)
  | count n | report kind name key => exact .inl h

end Ledger

namespace Script

open Ledger (Gains)

variable {α β : Type} {W : Bytes → Bytes → Prop} {p : Script α} {f : α → Script β} {keys : List Bytes} {key : Bytes}
  {before : List Step} {l : Ledger} {now : UInt64}

/-- Whatever the keys hold, a script puts no strings but those that `W` allows. -/
def Puts (W : Bytes → Bytes → Prop) : Script α → Prop
  | done _ | failed _ => True
  | look _ next => ∀ v, (next v).Puts W
  | deed d next =>
    (∀ key v life, d = .put key v life → ∃ data, v = .string data ∧ W key data) ∧ next.Puts W

theorem Puts.bind (hp : p.Puts W) (hf : ∀ a, (f a).Puts W) : (p >>= f).Puts W := by
  show (p.bind f).Puts W
  induction p with
  | done a => exact hf a
  | failed e => trivial
  | look key next ih => exact fun v => ih v (hp v)
  | deed d next ih => exact ⟨hp.1, ih hp.2⟩

theorem Puts.gains (h : p.Puts W) : Gains W l (p.run now l).2 := by
  induction p generalizing l with
  | done a | failed e => exact .refl
  | look key next ih => exact Ledger.gains_check.trans (ih _ (h _))
  | deed d next ih => exact (Ledger.gains_perform h.1).trans (ih h.2)

/-- Every script comes to an end on some way. -/
theorem Every.exists {Q : List Step → Except Error α → Prop} (h : p.Every Q before) : ∃ ms r, Q (before ++ ms) r := by
  obtain ⟨ms, hq, -⟩ := h.run_of_before 0 (.empty 0)
  exact ⟨ms, _, hq⟩

theorem puts_of_quiet (h : p.Every (fun ms _ => Quiet keys ms) before) : p.Puts W := by
  induction p generalizing before with
  | done a | failed e => trivial
  | look key next ih => exact fun v => ih v (h v)
  | deed d next ih =>
      obtain ⟨ms, -, hquiet⟩ := Every.exists (p := next) h
      obtain ⟨key, -, hd⟩ := hquiet (.deed d) (by simp)
      cases hd

theorem Looks.puts (keys : List Bytes) (h : p.Looks keys) : p.Puts W := puts_of_quiet (h [] .nil)

theorem puts_put {data : Bytes} {life : Lifetime} (hW : W key data) : (act (.put key (.string data) life)).Puts W := by
  refine ⟨fun key' v life' h => ?_, trivial⟩
  cases h
  exact ⟨data, rfl, hW⟩

theorem puts_count (n : UInt64) : (act (.count n)).Puts W := ⟨nofun, trivial⟩

theorem puts_report (kind : EventClass) (name : String) (key : Bytes) : (act (.report kind name key)).Puts W :=
  ⟨nofun, trivial⟩

/-- One string is put, counted and reported. -/
theorem puts_one {data : Bytes} {life : Lifetime} {kind : EventClass} {name : String} {e : Executed}
    (hW : W key data) : (do act (.put key (.string data) life)
                            act (.count 1)
                            act (.report kind name key)
                            return e : Script Executed).Puts W :=
  (puts_put hW).bind fun _ => (puts_count 1).bind fun _ => (puts_report kind name key).bind fun _ => trivial

/-! ## The string of a key -/

theorem data_of_string? {c : Contents} {old : Option Bytes} (h : c.string? key = .ok old) :
    c.data key = old.getD [] := by
  unfold Contents.string? at h
  unfold Contents.data
  cases hk : c key with
  | none =>
      rw [hk] at h
      cases h
      rfl
  | some i =>
      obtain ⟨v, expiry⟩ := i
      rw [hk] at h
      cases v with
      | string data =>
          cases h
          rfl
      | list items => cases h

theorem gains_string {f : Option Bytes → Script β}
    (hf : ∀ old, (l.live now).string? key = .ok old → (f old).Puts W) : Gains W l ((string key >>= f).run now l).2 := by
  rw [run_bind, run_string]
  cases hold : (l.live now).string? key with
  | error e => exact Ledger.gains_check
  | ok old => exact Ledger.gains_check.trans (hf old hold).gains

/-! ## Commands -/

theorem puts_setGeneric {c : Command} {options : SetOptions} {value : Bytes} {okReply abortReply : Reply}
    (hW : W key value) : (setGeneric c options key value okReply abortReply).Puts W := by
  have httl : (options.expire.mapM fun e => timeToLive c e.1 e.2).Puts W := by
    cases options.expire with
    | none => trivial
    | some e => exact (Looks.puts [] (looks_timeToLive c e.1 e.2)).bind fun _ => trivial
  have hholds : (conditionHolds options.condition key).Puts W :=
    Looks.puts [key] (looks_conditionHolds options.condition List.mem_cons_self)
  refine httl.bind fun ttl => hholds.bind fun holds => ?_
  cases holds with
  | false => trivial
  | true =>
      refine (puts_put hW).bind fun _ => (puts_count 1).bind fun _ => (puts_report _ _ key).bind fun _ => ?_
      cases ttl with
      | none => trivial
      | some ms => exact (puts_report _ _ key).bind fun _ => trivial

theorem puts_getSetKey {value : Bytes} (hW : W key value) : (getSetKey key value).Puts W :=
  (Looks.puts [key] (looks_string List.mem_cons_self)).bind fun _ => puts_one hW

theorem puts_addInteger (hW : ∀ sum, W key (Integer.render sum)) (increment : Int64) :
    (addInteger key increment).Puts W := by
  refine (Looks.puts [key] (looks_string List.mem_cons_self)).bind fun old => ?_
  have hstart : (old.elim (pure 0) fun data => ofExcept (StringValue.raw data).toInt64).Puts W := by
    cases old with
    | none => trivial
    | some data => exact Looks.puts [] .ofExcept
  refine hstart.bind fun start => ?_
  cases Integer.add? start increment with
  | none => trivial
  | some sum => exact puts_one (hW sum)

theorem puts_addFloat [Decimals] {increment : Bytes}
    (hW : ∀ a b sum : LongFloat, a.add? b = some sum → W key sum.render) : (addFloat key increment).Puts W := by
  refine (Looks.puts [key] (looks_string List.mem_cons_self)).bind fun old => ?_
  have hstart : (old.elim (pure .zero) fun data => ofExcept (StringValue.raw data).toLongFloat).Puts W := by
    cases old with
    | none => trivial
    | some data => exact Looks.puts [] .ofExcept
  refine hstart.bind fun start => ?_
  cases LongFloat.parse? increment with
  | none => trivial
  | some n =>
      simp only
      cases hsum : start.add? n with
      | none => trivial
      | some sum => exact puts_one (hW start n sum hsum)

theorem puts_setPairs {kvs : List (Bytes × Bytes)} (hW : ∀ kv ∈ kvs, W kv.1 kv.2) : (setPairs kvs).Puts W := by
  induction kvs with
  | nil => trivial
  | cons kv kvs ih =>
      refine (puts_put (hW kv List.mem_cons_self)).bind fun _ => (puts_report _ _ kv.1).bind fun _ => ?_
      exact ih fun other ho => hW other (List.mem_cons_of_mem _ ho)

theorem puts_setMany {onlyMissing : Bool} {args : List Bytes}
    (hW : ∀ kvs, Command.pairs? args = some kvs → ∀ kv ∈ kvs, W kv.1 kv.2) : (setMany onlyMissing args).Puts W := by
  unfold setMany
  cases hp : Command.pairs? args with
  | none => trivial
  | some kvs =>
      have hset (busy : Nat) : (if 0 < busy then return { reply := .integer 0 } else do
          setPairs kvs
          act (.count (UInt64.ofNat kvs.length))
          return { reply := if onlyMissing then .integer 1 else .ok } : Script Executed).Puts W := by
        split
        · trivial
        · exact (puts_setPairs (hW kvs hp)).bind fun _ => (puts_count _).bind fun _ => trivial
      cases onlyMissing with
      | false => exact hset 0
      | true => exact (Looks.puts _ (looks_countPresent fun _ hk => hk)).bind hset

theorem puts_removeAll (keys : List Bytes) : (removeAll keys).Puts W := by
  induction keys with
  | nil => trivial
  | cons key keys ih =>
      have hrest (x : Nat) : (do let n ← removeAll keys
                                 return x + n : Script Nat).Puts W := ih.bind fun _ => trivial
      intro v
      cases v with
      | none => exact hrest 0
      | some v => exact ⟨nofun, nofun, nofun, hrest 1⟩

theorem gains_appendTo [Decimals] {value : Bytes} :
    Gains (Command.Leaves (l.live now) .append [key, value]) l ((appendTo key value).run now l).2 := by
  refine gains_string fun old hold => ?_
  have hleaves : Command.Leaves (l.live now) .append [key, value] key ((l.live now).data key ++ value) := .append
  rw [data_of_string? hold] at hleaves
  cases old with
  | none =>
      simp only
      split
      · trivial
      · exact puts_one hleaves
  | some old => exact (Looks.puts [] (looks_checkLength _)).bind fun _ => puts_one hleaves

theorem gains_setRangeOf [Decimals] {offset value : Bytes} :
    Gains (Command.Leaves (l.live now) .setRange [key, offset, value]) l
      ((setRangeOf key offset value).run now l).2 := by
  unfold setRangeOf integerArgument integerOf
  cases hn : Integer.parse? offset with
  | none => exact .refl
  | some n =>
      show Gains _ l (Script.run now (if n < 0 then _ else _) l).2
      split
      · exact .refl
      · rename_i hpos
        refine gains_string fun old hold => ?_
        cases hv : value.isEmpty with
        | true => trivial
        | false =>
            have hleaves : Command.Leaves (l.live now) .setRange [key, offset, value] key
                (Bytes.patchAt ((l.live now).data key) n.toInt.toNat value) := .setRange hn hpos hv
            rw [data_of_string? hold] at hleaves
            exact (Looks.puts [] (looks_checkLength _)).bind fun _ => puts_one hleaves

/-- Whatever a command ends with, it has left no strings but those that it would leave. -/
theorem gains_ofCommand [Decimals] (c : Command) (args : List Bytes) :
    Gains (c.Leaves (l.live now) args) l ((ofCommand c args).run now l).2 := by
  unfold ofCommand
  split
  · exact (Puts.bind (Looks.puts [] .ofExcept) fun options => puts_setGeneric .set).gains
  · exact (puts_setGeneric .setNx).gains
  · exact (puts_setGeneric .setEx).gains
  · exact (puts_setGeneric .pSetEx).gains
  · exact (puts_getSetKey .getSet).gains
  · exact gains_appendTo
  · exact gains_setRangeOf
  · exact (puts_setMany fun kvs hp kv hkv => .mSet hp hkv).gains
  · exact (puts_setMany fun kvs hp kv hkv => .mSetNx hp hkv).gains
  · exact (puts_addInteger (fun sum => .count (by decide) sum) 1).gains
  · exact (puts_addInteger (fun sum => .count (by decide) sum) (-1)).gains
  · refine (Puts.bind (Looks.puts [] .ofExcept) fun n => ?_).gains
    exact puts_addInteger (fun sum => .count (by decide) sum) n
  · refine (Puts.bind (Looks.puts [] .ofExcept) fun n => ?_).gains
    split
    · exact puts_addInteger (fun sum => .count (by decide) sum) _
    · trivial
  · exact (puts_addFloat fun a b sum h => .countFloat h).gains
  · refine (Puts.bind (puts_removeAll _) fun n => ?_).gains
    trivial
  · exact .refl

end Script

namespace Command

variable {c : Command} {args : List Bytes} {key : Bytes}

theorem mem_unmeasured_of_pairs? {kvs : List (Bytes × Bytes)} {value : Bytes} (h : pairs? args = some kvs)
    (hkv : (key, value) ∈ kvs) : value ∈ ((pairs? args).getD []).map (·.2) := by
  rw [h]
  exact List.mem_map_of_mem hkv

theorem mem_args_of_mem_unmeasured {v : Bytes} (h : v ∈ c.unmeasured args) : v ∈ args := by
  unfold unmeasured at h
  split at h
  case h_7 | h_8 =>
    obtain ⟨kv, hkv, rfl⟩ := List.mem_map.mp h
    cases hp : pairs? args with
    | none =>
        rw [hp] at hkv
        cases hkv
    | some kvs =>
        rw [hp] at hkv
        exact (mem_of_pairs? hp kv hkv).2
  all_goals simp_all

end Command

namespace Request

variable {argv : List Bytes} {c : Command}

/-- The arguments that a request may store unmeasured. -/
def unmeasured (argv : List Bytes) : List Bytes :=
  match command? argv with
  | .ok c => c.unmeasured argv.tail
  | .error _ => []

/-- A request would leave a longer string than there may be. -/
def Outgrows [Decimals] (live : Contents) (argv : List Bytes) : Prop :=
  ∃ c key data, command? argv = .ok c ∧ c.Leaves live argv.tail key data ∧ maxString < data.length

theorem isWrite_of_leaves [Decimals] {c : Command} {live : Contents} {args : List Bytes} {key data : Bytes}
    (h : c.Leaves live args key data) : c.isWrite = true := by
  cases h with
  | count hc sum =>
      simp only [List.mem_cons, List.not_mem_nil, or_false] at hc
      rcases hc with rfl | rfl | rfl | rfl <;> rfl
  | _ => rfl

theorem unmeasured_of_command (hc : command? argv = .ok c) : unmeasured argv = c.unmeasured argv.tail := by
  rw [unmeasured, hc]

theorem mem_of_mem_unmeasured {v : Bytes} (h : v ∈ unmeasured argv) : v ∈ argv := by
  unfold unmeasured at h
  split at h
  · exact List.mem_of_mem_tail (Command.mem_args_of_mem_unmeasured h)
  · cases h

end Request

end GraceStore
