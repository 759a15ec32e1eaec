import GraceStore.Proofs.Ledger.Basic

/-!
# Scripts

What a request does to a ledger, as a program of its own: it looks at keys, whose values decide how it
goes on, does deeds, and ends with a result or an error. A script sees neither the clock nor any expiry.
-/

namespace GraceStore

inductive Script (α : Type) where
  | done (a : α)
  | failed (e : Error)
  | look (key : Bytes) (next : Option Value → Script α)
  | deed (d : Deed) (next : Script α)

namespace Script

variable {α β : Type}

def bind : Script α → (α → Script β) → Script β
  | done a, f => f a
  | failed e, _ => failed e
  | look key next, f => look key fun v => (next v).bind f
  | deed d next, f => deed d (next.bind f)

instance : Monad Script where
  pure := done
  bind := bind

def ofExcept : Except Error α → Script α
  | .ok a => done a
  | .error e => failed e

def value (key : Bytes) : Script (Option Value) := look key done

def act (d : Deed) : Script Unit := deed d (done ())

/-- Carries a script out. A key that is due when it is looked at is removed and found missing. -/
def run (now : UInt64) : Script α → Ledger → Except Error α × Ledger
  | done a, l => (.ok a, l)
  | failed e, l => (.error e, l)
  | look key next, l => (next ((l.live now key).map (·.value))).run now (l.check now key)
  | deed d next, l => next.run now (l.perform now d)

/-- A script that ends with a report where `p` ends with an error. -/
def reported (report : Error → α) : Script α → Script α
  | done a => done a
  | failed e => done (report e)
  | look key next => look key fun v => (next v).reported report
  | deed d next => deed d (next.reported report)

/-- What a script does on its way. -/
inductive Step where
  | look (key : Bytes)
  | deed (d : Deed)
  deriving Repr

/-- Whatever the keys hold, the steps of a script and its end satisfy `Q`. The steps `before` it count. -/
def Every (Q : List Step → Except Error α → Prop) (before : List Step) : Script α → Prop
  | done a => Q before (.ok a)
  | failed e => Q before (.error e)
  | look key next => ∀ v, (next v).Every Q (before ++ [.look key])
  | deed d next => next.Every Q (before ++ [.deed d])

variable {now : UInt64} {l l' : Ledger} {p : Script α} {f : α → Script β} {a : α} {e : Error}
  {key : Bytes} {Q Q' : List Step → Except Error α → Prop} {R : List Step → Except Error β → Prop}
  {before : List Step}

/-! ## Running -/

@[simp] theorem pure_bind : (pure a : Script α) >>= f = f a := rfl

theorem run_bind : (p >>= f).run now l =
    match p.run now l with
    | (.ok a, l') => (f a).run now l'
    | (.error e, l') => (.error e, l') := by
  show (p.bind f).run now l = _
  induction p generalizing l with
  | done a => rfl
  | failed e => rfl
  | look key next ih => exact ih _
  | deed d next ih => exact ih

theorem run_bind_ok (h : p.run now l = (.ok a, l')) : (p >>= f).run now l = (f a).run now l' := by
  rw [run_bind, h]

theorem run_bind_error (h : p.run now l = (.error e, l')) : (p >>= f).run now l = (.error e, l') := by
  rw [run_bind, h]

theorem run_reported {report : Error → α} : (p.reported report).run now l =
    match p.run now l with
    | (.ok a, l') => (.ok a, l')
    | (.error e, l') => (.ok (report e), l') := by
  induction p generalizing l with
  | done a => rfl
  | failed e => rfl
  | look key next ih => exact ih _
  | deed d next ih => exact ih

theorem ofExcept_bind {r : Except Error α} {g : α → Except Error β} :
    (ofExcept r >>= fun a => ofExcept (g a)) = ofExcept (r >>= g) := by
  cases r <;> rfl

/-! ## Every way through a script -/

theorem Every.mono (h : p.Every Q before) (hQ : ∀ ms r, Q ms r → Q' ms r) : p.Every Q' before := by
  induction p generalizing before with
  | done a => exact hQ _ _ h
  | failed e => exact hQ _ _ h
  | look key next ih => exact fun v => ih v (h v)
  | deed d next ih => exact ih h

theorem every_of_forall (h : ∀ ms r, Q ms r) : p.Every Q before := by
  induction p generalizing before with
  | done a => exact h _ _
  | failed e => exact h _ _
  | look key next ih => exact fun v => ih v
  | deed d next ih => exact ih

theorem every_bind : (p >>= f).Every R before ↔ p.Every (fun ms r =>
    match r with
    | .ok a => (f a).Every R ms
    | .error e => R ms (.error e)) before := by
  show (p.bind f).Every R before ↔ _
  induction p generalizing before with
  | done a => exact Iff.rfl
  | failed e => exact Iff.rfl
  | look key next ih => exact forall_congr' fun v => ih v
  | deed d next ih => exact ih

theorem every_reported {report : Error → α} : (p.reported report).Every Q before ↔ p.Every (fun ms r =>
    match r with
    | .ok a => Q ms (.ok a)
    | .error e => Q ms (.ok (report e))) before := by
  induction p generalizing before with
  | done a => exact Iff.rfl
  | failed e => exact Iff.rfl
  | look key next ih => exact forall_congr' fun v => ih v
  | deed d next ih => exact ih

end Script

namespace Ledger

def step (l : Ledger) (now : UInt64) : Script.Step → Ledger
  | .look key => l.check now key
  | .deed d => l.perform now d

def steps (l : Ledger) (now : UInt64) (ms : List Script.Step) : Ledger := ms.foldl (fun l m => l.step now m) l

@[simp] theorem steps_cons (l : Ledger) (now : UInt64) (m : Script.Step) (ms : List Script.Step) :
    l.steps now (m :: ms) = (l.step now m).steps now ms := rfl

end Ledger

namespace Script

variable {α : Type} {p : Script α} {Q : List Step → Except Error α → Prop} {before : List Step}

/-- A run goes one of the ways through a script. -/
theorem Every.run_of_before (h : p.Every Q before) (now : UInt64) (l : Ledger) : ∃ ms,
    Q (before ++ ms) (p.run now l).1 ∧ (p.run now l).2 = l.steps now ms := by
  induction p generalizing before l with
  | done a | failed e =>
      refine ⟨[], ?_, rfl⟩
      rw [List.append_nil]
      exact h
  | look key next ih =>
      obtain ⟨ms, hq, hl⟩ := ih _ (h ((l.live now key).map (·.value))) (l.check now key)
      rw [List.append_assoc] at hq
      exact ⟨.look key :: ms, hq, hl⟩
  | deed d next ih =>
      obtain ⟨ms, hq, hl⟩ := ih h (l.perform now d)
      rw [List.append_assoc] at hq
      exact ⟨.deed d :: ms, hq, hl⟩

theorem Every.run (h : p.Every Q []) (now : UInt64) (l : Ledger) : ∃ ms,
    Q ms (p.run now l).1 ∧ (p.run now l).2 = l.steps now ms :=
  h.run_of_before now l

end Script

end GraceStore
