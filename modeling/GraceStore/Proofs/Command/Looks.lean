import GraceStore.Proofs.Command.Scripts
import GraceStore.Proofs.Ledger.Expiry

/-!
# Scripts that only look

What a command does before it is sure to go through: it reads its arguments and looks at its keys.
-/

namespace GraceStore

namespace Script

variable {α β : Type} {keys : List Bytes} {key : Bytes} {ms : List Step} {p : Script α} {f : α → Script β}
  {a : α} {e : Error}

/-! ## Steps -/

/-- The steps only look at some of the keys. -/
def Quiet (keys : List Bytes) (ms : List Step) : Prop := ∀ m ∈ ms, ∃ key ∈ keys, m = .look key

theorem Quiet.nil : Quiet keys [] := nofun

theorem Quiet.append {ms' : List Step} (h : Quiet keys ms) (h' : Quiet keys ms') : Quiet keys (ms ++ ms') :=
  fun m hm => (List.mem_append.mp hm).elim (h m) (h' m)

theorem Quiet.look (h : Quiet keys ms) (hk : key ∈ keys) : Quiet keys (ms ++ [.look key]) :=
  h.append fun _ hm => ⟨key, hk, List.mem_singleton.mp hm⟩

theorem Quiet.not_isDeed (h : Quiet keys ms) : ∀ m ∈ ms, m.isDeed = false := by
  intro m hm
  obtain ⟨key, _, rfl⟩ := h m hm
  rfl

theorem Quiet.not_isEdit (h : Quiet keys ms) : ∀ m ∈ ms, m.isEdit = false :=
  fun m hm => Step.isEdit_of_not_isDeed (h.not_isDeed m hm)

theorem Quiet.weight (h : Quiet keys ms) : (ms.map Step.weight).sum = 0 := by
  induction ms with
  | nil => rfl
  | cons m ms ih =>
      obtain ⟨key, _, rfl⟩ := h m List.mem_cons_self
      exact (Nat.zero_add _).trans (ih fun m' hm' => h m' (List.mem_cons_of_mem _ hm'))

theorem Quiet.named (h : Quiet keys ms) : ∀ m ∈ ms, ∀ key ∈ m.key?, key ∈ keys := by
  intro m hm key hkey
  obtain ⟨k, hk, rfl⟩ := h m hm
  cases Option.some.inj hkey
  exact hk

/-! ## Scripts -/

/-- A script that only looks at some of the keys. -/
def Looks (keys : List Bytes) (p : Script α) : Prop :=
  ∀ before, Quiet keys before → p.Every (fun ms _ => Quiet keys ms) before

namespace Looks

theorem done : (done a : Script α).Looks keys := fun _ h => h

theorem failed : (failed e : Script α).Looks keys := fun _ h => h

theorem ofExcept {r : Except Error α} : (ofExcept r).Looks keys := by
  cases r with
  | ok a => exact done
  | error e => exact failed

theorem value (hk : key ∈ keys) : (value key).Looks keys := fun _ h _ => h.look hk

theorem bind (hp : p.Looks keys) (hf : ∀ a, (f a).Looks keys) : (p >>= f).Looks keys := by
  intro before h
  refine every_bind.mpr ((hp before h).mono fun ms r hms => ?_)
  cases r with
  | ok a => exact hf a ms hms
  | error e => exact hms

end Looks

theorem looks_checkLength (n : Nat) : (checkLength n).Looks keys := by
  unfold checkLength
  split
  · exact .done
  · exact .failed

theorem looks_timeToLive (c : Command) (arg : Bytes) (u : TimeUnit) : (timeToLive c arg u).Looks keys := by
  refine Looks.ofExcept.bind fun n => ?_
  split
  · split
    · exact .done
    · exact .failed
  · exact .failed

theorem looks_expire (c : Command) (expire : Option (Bytes × TimeUnit)) :
    (expire.mapM fun (arg, u) => timeToLive c arg u).Looks keys := by
  cases expire with
  | none => exact .done
  | some e => exact (looks_timeToLive c e.1 e.2).bind fun _ => .done

/-- What a missing key counts as, or the number that its string is read as. -/
theorem looks_start {old : Option Bytes} {g : Bytes → Except Error α} :
    (old.elim (pure a) fun data => ofExcept (g data)).Looks keys := by
  cases old with
  | none => exact .done
  | some data => exact .ofExcept

theorem looks_string (hk : key ∈ keys) : (string key).Looks keys := by
  refine (Looks.value hk).bind fun v => ?_
  split
  · exact .done
  · exact .done
  · exact .failed

theorem looks_conditionHolds (condition : SetCondition) (hk : key ∈ keys) :
    (conditionHolds condition key).Looks keys := by
  cases condition with
  | always => exact .done
  | ifMissing | ifPresent => exact (Looks.value hk).bind fun _ => .done

theorem looks_countPresent {wanted : List Bytes} (h : ∀ key ∈ wanted, key ∈ keys) :
    (countPresent wanted).Looks keys := by
  induction wanted with
  | nil => exact .done
  | cons key wanted ih =>
      refine (Looks.value (h key List.mem_cons_self)).bind fun _ => ?_
      exact (ih fun k hk => h k (List.mem_cons_of_mem _ hk)).bind fun _ => .done

end Script

end GraceStore
