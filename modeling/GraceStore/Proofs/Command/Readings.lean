import GraceStore.Proofs.Command.Carried

/-!
# Requests that read

What a request that reads answers is worked out from the live contents and the clock alone; the ledger
stays as it is. With it every request has a script, errors included as replies.
-/

namespace GraceStore

namespace Contents

/-- The string of a key; a key of another type is an error. -/
def string? (c : Contents) (key : Bytes) : Except Error (Option Bytes) :=
  match c key with
  | none => .ok none
  | some ⟨.string data, _⟩ => .ok (some data)
  | some ⟨.list _, _⟩ => .error .wrongType

def bulk (c : Contents) (key : Bytes) : Reply :=
  match c key with
  | some ⟨.string data, _⟩ => .bulk data
  | _ => .null

def getRange (c : Contents) (key first last : Bytes) : Except Error Reply := do
  let first ← integerOf first
  let last ← integerOf last
  let data ← c.string? key
  return .bulk (data.elim [] fun data => Bytes.slice data first last)

def answer (c : Contents) (now : UInt64) (command : Command) (args : List Bytes) : Except Error Reply :=
  match command, args with
  | .get, [key] => do return (← c.string? key).elim .null .bulk
  | .getRange, [key, first, last] => c.getRange key first last
  | .substr, [key, first, last] => c.getRange key first last
  | .mGet, keys => return .array (keys.map c.bulk)
  | .strLen, [key] => do return .integer (Int64.ofNat (((← c.string? key).map List.length).getD 0))
  | .exists, keys => return .integer (Int64.ofNat (keys.countP fun key => (c key).isSome))
  | .ttl, [key] => return .integer (Command.ttlNumber (fun ms => (ms + 500) / 1000) (c.ttl now key))
  | .pTtl, [key] => return .integer (Command.ttlNumber (fun ms => ms) (c.ttl now key))
  | command, _ => .error (.arity command.name)

end Contents

/-- A command that looks for the string of a key finds what counts. -/
theorem Script.run_string {now : UInt64} {l : Ledger} {key : Bytes} :
    (string key).run now l = ((l.live now).string? key, l.check now key) := by
  rw [string, run_bind]
  simp only [value, run, Contents.string?]
  cases l.live now key with
  | none => rfl
  | some i => obtain ⟨data | items, expiry⟩ := i <;> rfl

namespace Action

variable {α β : Type} {env : Env} {s : Store} {held : ObjectId → Prop} {key : Bytes}

theorem Carries.ofExcept_bind {a : Action α} {f : α → Action β} {r : Except Error α}
    {g : α → Except Error β} (h : a.Carries held env s (Script.ofExcept r))
    (hf : ∀ x s', s'.ledger = s.ledger → (f x).Carries held env s' (Script.ofExcept (g x))) :
    (a >>= f).Carries held env s (Script.ofExcept (r >>= g)) := by
  rw [← Script.ofExcept_bind]
  exact h.bind fun x s' _ hrun => hf x s' (eq_of_run_ofExcept hrun)

/-- A reader finds the object of a key that is live. -/
theorem yields_lookup : (Command.lookup key).Yields held env s fun x s' =>
    x = none ∧ s.ledger.live env.now key = none ∨
      ∃ o a expiry, x = some o ∧ s'.heap.get? o = some a ∧ (s'.Native → a.Admits s'.keyspace.id) ∧
        s.ledger.live env.now key = some ⟨a.value, expiry⟩ := by
  refine Meets.bind_run run_now .refl fun hs => ?_
  have hsame : s.keyspace.Same (s.keyspace.lookup env.now key).2 := by
    unfold Keyspace.lookup
    split <;> exact .of_table rfl rfl rfl rfl rfl rfl rfl rfl
  refine Yields.of_run (run_apply _) (fun hs => advance_of_same hs hsame)
    (fun hs => Store.ledger_of_same hs hsame) fun hs => ?_
  rcases Store.get?_cases hs env.now key with ⟨hn, hg⟩ | ⟨e, a, he, ha, hi, hg⟩
  · simp only [Keyspace.lookup, hg]
    exact Or.inl ⟨trivial, hn⟩
  · simp only [Keyspace.lookup, hg]
    exact Or.inr ⟨e.object, a, e.expiresAt, rfl, ha,
      fun hn => hn e (Table.mem_entries_of_find? he) a ha, hi⟩

end Action

namespace Command

variable {β : Type} {env : Env} {s : Store} {held : ObjectId → Prop} {key : Bytes}

open GraceStore.Action

theorem carries_readString {f : Option StringValue → Action β} {g : Option Bytes → Except Error β}
    (hf : ∀ s' x, s'.ledger = s.ledger →
      (f x).Carries held env s' (Script.ofExcept (g (x.map StringValue.toBytes)))) :
    (readString key >>= f).Carries held env s
      (Script.ofExcept ((s.ledger.live env.now).string? key >>= g)) := by
  simp only [readString, bind_assoc]
  refine yields_lookup.carries fun x s₁ _ hl₁ hx => ?_
  rcases hx with ⟨rfl, hn⟩ | ⟨o, a, expiry, rfl, hg, hnative, hi⟩
  · simp only [Contents.string?, hn, pure_bind]
    exact hf s₁ none hl₁
  · simp only [bind_assoc]
    refine (yields_loadString hg hnative).carries fun y s₂ _ hl₂ ⟨_, _, hy⟩ => ?_
    cases hv : a.value with
    | string data =>
        rw [hv] at hy hi
        obtain ⟨value, rfl, rfl⟩ := hy
        simp only [Contents.string?, hi, pure_bind]
        exact hf s₂ (some value) (hl₂.trans hl₁)
    | list items =>
        rw [hv] at hy hi
        cases hy
        simp only [Contents.string?, hi]
        exact .fail

theorem carries_getString : (getString key).Carries held env s (Script.ofExcept do
    return ((← (s.ledger.live env.now).string? key).elim .null .bulk)) :=
  carries_readString fun _ x _ => by cases x <;> exact .pure

theorem carries_stringLength : (stringLength key).Carries held env s (Script.ofExcept do
    return .integer (Int64.ofNat (((← (s.ledger.live env.now).string? key).map List.length).getD 0))) :=
  carries_readString fun _ x _ => by
    cases x with
    | none => exact .pure
    | some value =>
        simp only [Option.map_some, Option.getD_some, StringValue.length_toBytes]
        exact .pure

theorem carries_getRangeOf (first last : Bytes) : (getRangeOf key first last).Carries held env s
    (Script.ofExcept ((s.ledger.live env.now).getRange key first last)) := by
  refine (carries_integerArgument first).ofExcept_bind fun n s₁ hl₁ => ?_
  refine (carries_integerArgument last).ofExcept_bind fun m s₂ hl₂ => ?_
  rw [← hl₁, ← hl₂]
  exact carries_readString fun _ x _ => by cases x <;> exact .pure

theorem carries_readAll (keys : List Bytes) : (readAll keys).Carries held env s
    (Script.ofExcept (.ok (keys.map (s.ledger.live env.now).bulk))) := by
  induction keys generalizing s with
  | nil => exact .pure
  | cons key keys ih =>
      have hrest (s' : Store) (hl : s'.ledger = s.ledger) (x : Option StringValue)
          (hx : stringReply x = (s.ledger.live env.now).bulk key) : Carries (do
            let rest ← readAll keys
            return stringReply x :: rest) held env s'
          (Script.ofExcept (.ok ((key :: keys).map (s.ledger.live env.now).bulk))) := by
        rw [List.map_cons, ← hx, ← hl]
        exact ih.ofExcept_bind (g := fun rest => .ok (stringReply x :: rest)) fun _ _ _ => .pure
      refine yields_lookup.carries fun x s₁ _ hl₁ hx => ?_
      rcases hx with ⟨rfl, hn⟩ | ⟨o, a, expiry, rfl, hg, hnative, hi⟩
      · simp only [pure_bind]
        exact hrest s₁ hl₁ none (by simp only [Contents.bulk, hn, stringReply])
      · refine (yields_loadString hg hnative).carries fun y s₂ _ hl₂ ⟨_, _, hy⟩ => ?_
        refine hrest s₂ (hl₂.trans hl₁) y ?_
        cases hv : a.value with
        | string data =>
            rw [hv] at hy hi
            obtain ⟨value, rfl, rfl⟩ := hy
            simp only [Contents.bulk, hi, stringReply]
        | list items =>
            rw [hv] at hy hi
            cases hy
            simp only [Contents.bulk, hi, stringReply]

theorem carries_countFound (keys : List Bytes) : (countFound keys).Carries held env s
    (Script.ofExcept (.ok (keys.countP fun key => (s.ledger.live env.now key).isSome))) := by
  induction keys generalizing s with
  | nil => exact .pure
  | cons key keys ih =>
      refine yields_lookup.carries fun x s₁ _ hl₁ hx => ?_
      have hfound : x.isSome = (s.ledger.live env.now key).isSome := by
        rcases hx with ⟨rfl, hn⟩ | ⟨o, a, expiry, rfl, _, _, hi⟩
        · rw [hn]; rfl
        · rw [hi]; rfl
      rw [List.countP_cons, ← hfound, Nat.add_comm, ← hl₁]
      exact ih.ofExcept_bind (g := fun n => .ok ((if x.isSome then 1 else 0) + n)) fun _ _ _ => .pure

theorem carries_getMany (keys : List Bytes) : (getMany keys).Carries held env s
    (Script.ofExcept (.ok (.array (keys.map (s.ledger.live env.now).bulk)))) :=
  (carries_readAll keys).ofExcept_bind (g := fun replies => .ok (Reply.array replies)) fun _ _ _ => .pure

theorem carries_existsKeys (keys : List Bytes) : (existsKeys keys).Carries held env s (Script.ofExcept
    (.ok (.integer (Int64.ofNat (keys.countP fun key => (s.ledger.live env.now key).isSome))))) :=
  (carries_countFound keys).ofExcept_bind (g := fun n => .ok (Reply.integer (Int64.ofNat n))) fun _ _ _ => .pure

theorem carries_ttl (inUnit : UInt64 → UInt64) : Carries (do
      return Reply.integer (ttlNumber inUnit ((← Action.keyspace).ttl (← now) key))) held env s
    (Script.ofExcept (.ok (.integer (ttlNumber inUnit ((s.ledger.live env.now).ttl env.now key))))) := by
  refine Meets.bind_run run_keyspace .refl fun hs => Meets.bind_run run_now .refl fun _ => ?_
  rw [Store.ttl_ledger hs]
  exact Carries.pure

end Command

namespace Request

variable {env : Env} {s : Store} {held : ObjectId → Prop}

open GraceStore.Action Command

theorem carries_answer (c : Command) (args : List Bytes) : (answer c args).Carries held env s
    (Script.ofExcept ((s.ledger.live env.now).answer env.now c args)) := by
  unfold answer
  split
  · exact carries_getString
  · exact carries_getRangeOf _ _
  · exact carries_getRangeOf _ _
  · exact carries_getMany _
  · exact carries_stringLength
  · exact carries_existsKeys _
  · exact carries_ttl _
  · exact carries_ttl _
  · have hanswer : (s.ledger.live env.now).answer env.now c args = .error (.arity c.name) := by
      unfold Contents.answer
      split <;> simp_all
    rw [hanswer]
    exact .fail

theorem run_reporting {α : Type} (a : Action α) (report : Error → α) : (reporting a report).run env s =
    match a.run env s with
    | (.ok x, s') => (.ok x, s')
    | (.error (.error e), s') => (.ok (report e), s')
    | (.error (.foreignDomain why), s') => (.error (.foreignDomain why), s') := by
  rw [reporting, run_tryCatch]
  generalize a.run env s = r
  obtain ⟨(e | why) | x, s'⟩ := r <;> rfl

/-- An error is reported, so that it is not what a request ends with. -/
theorem run_reporting_ne {α : Type} {a : Action α} {report : Error → α} {e : Error} :
    (reporting a report).run env s ≠ (.error (.error e), s') := by
  rw [run_reporting]
  generalize a.run env s = r
  obtain ⟨(e | why) | x, s'⟩ := r <;> nofun

theorem run_processWrite_ne [Decimals] {argv : List Bytes} {e : Error} :
    (processWrite argv).run env s ≠ (.error (.error e), s') := by
  unfold processWrite
  split
  · nofun
  · split
    · exact run_reporting_ne
    · rw [run_bind]
      generalize hrun : (reporting _ _).run env s = r
      obtain ⟨(e | why) | x, s'⟩ := r
      · exact absurd hrun run_reporting_ne
      · nofun
      · nofun

theorem carries_reporting {α : Type} {a : Action α} {p : Script α} {report : Error → α}
    (h : a.Carries held env s p) : (reporting a report).Carries held env s (p.reported report) := by
  intro hs ho
  obtain ⟨hadv, hq⟩ := h hs ho
  rw [run_reporting, Script.run_reported]
  revert hadv hq
  generalize a.run env s = r
  obtain ⟨(e | why) | x, s'⟩ := r
  · exact fun hadv hq => ⟨hadv, by rw [← hq]⟩
  · exact fun hadv hq => ⟨hadv, hq⟩
  · exact fun hadv hq => ⟨hadv, by rw [← hq]⟩

/-- The script of a request, for what is live when it is carried out. -/
def script [Decimals] (live : Contents) (now : UInt64) (argv : List Bytes) : Script Executed :=
  match command? argv with
  | .error e => .done { reply := .ofError e }
  | .ok c =>
    if c.isWrite then (Script.ofCommand c argv.tail).reported fun e => { reply := .ofError e }
    else ((Script.ofExcept (live.answer now c argv.tail)).reported .ofError).bind fun reply => .done { reply }

theorem every_script_ok [Decimals] (live : Contents) (now : UInt64) (argv : List Bytes) :
    (script live now argv).Every (fun _ r => ∃ e, r = .ok e) [] := by
  unfold script
  split
  · exact ⟨_, rfl⟩
  · split
    · exact Script.every_reported.mpr (Script.every_of_forall fun _ r => by cases r <;> exact ⟨_, rfl⟩)
    · cases live.answer now _ argv.tail <;> exact ⟨_, rfl⟩

theorem carries_processWrite [Decimals] [Decimals.Lawful] [env.Still] (argv : List Bytes) :
    (processWrite argv).Carries held env s (script (s.ledger.live env.now) env.now argv) := by
  unfold processWrite script
  cases command? argv with
  | error e => exact .pure
  | ok c =>
      simp only
      split
      · exact carries_reporting (carries_execute c argv.tail)
      · exact (carries_reporting (carries_answer c argv.tail)).bind fun _ _ _ _ => .pure

/-- What a request is answered by a reader. -/
def reading (live : Contents) (now : UInt64) (argv : List Bytes) : Reply :=
  match Command.lookup? (argv.headD []) with
  | none => .ofError (.unknownCommand (argv.headD []))
  | some c =>
    if c.isWrite then .ofError (.refused (.writeOnReader c.name))
    else if c.accepts argv.length then
      match live.answer now c argv.tail with
      | .ok r => r
      | .error e => .ofError e
    else .ofError (.arity c.name)

theorem carries_processRead (argv : List Bytes) : (processRead argv).Carries held env s
    (.done (reading (s.ledger.live env.now) env.now argv)) := by
  unfold processRead reading
  cases Command.lookup? (argv.headD []) with
  | none => exact .pure
  | some c =>
      simp only
      split
      · exact .pure
      · split
        · have h : (reporting (answer c argv.tail) Reply.ofError).Carries held env s _ :=
            carries_reporting (carries_answer c argv.tail)
          cases ha : (s.ledger.live env.now).answer env.now c argv.tail with
          | ok r => exact (ha ▸ h :)
          | error e => exact (ha ▸ h :)
        · exact .pure

end Request

end GraceStore
