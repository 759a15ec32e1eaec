import GraceStore.Command.Strings
import Mathlib.Data.List.Induction

/-!
# The options of SET

The words after key and value are read from left to right, and what is read is what they spell: NX and XX are words
of their own, EX and PX take the word that follows, whatever it is. Options may be repeated, but not together with
those that they exclude.
-/

namespace GraceStore

/-- What an option of SET asks for: that the key is missing, or present, or how long the value counts. -/
inductive SetOption where
  | ifMissing
  | ifPresent
  | lasts (arg : Bytes) (u : TimeUnit)
  deriving DecidableEq, Repr

namespace SetOption

/-- The words split into groups, each of which spells an option in letters of any case. -/
inductive Spells : List Bytes → List SetOption → Prop
  | nil : Spells [] []
  | nx {word : Bytes} {words : List Bytes} {os : List SetOption} (hword : SetOptions.isWord word "nx" = true)
      (h : Spells words os) : Spells (word :: words) (.ifMissing :: os)
  | xx {word : Bytes} {words : List Bytes} {os : List SetOption} (hword : SetOptions.isWord word "xx" = true)
      (h : Spells words os) : Spells (word :: words) (.ifPresent :: os)
  | ex {word arg : Bytes} {words : List Bytes} {os : List SetOption} (hword : SetOptions.isWord word "ex" = true)
      (h : Spells words os) : Spells (word :: arg :: words) (.lasts arg .seconds :: os)
  | px {word arg : Bytes} {words : List Bytes} {os : List SetOption} (hword : SetOptions.isWord word "px" = true)
      (h : Spells words os) : Spells (word :: arg :: words) (.lasts arg .milliseconds :: os)

/-- Options that do not exclude one another. -/
structure Compatible (os : List SetOption) : Prop where
  condition : .ifMissing ∈ os → .ifPresent ∉ os
  unit : ∀ a b, .lasts a .seconds ∈ os → .lasts b .milliseconds ∉ os

def lasts? : SetOption → Option (Bytes × TimeUnit)
  | .lasts arg u => some (arg, u)
  | _ => none

end SetOption

open SetOption (Spells Compatible)

variable {o o' : SetOptions} {os : List SetOption} {x : SetOption} {word arg : Bytes} {words : List Bytes} {e : Error}

namespace SetOptions

/-- What options come to together: of the times to live, the last one counts. -/
def of (os : List SetOption) : SetOptions where
  condition := if .ifMissing ∈ os then .ifMissing else if .ifPresent ∈ os then .ifPresent else .always
  expire := (os.filterMap SetOption.lasts?).getLast?

/-- One more option, unless those so far exclude it. -/
def take (o : SetOptions) : SetOption → Except Error SetOptions
  | .ifMissing => if o.condition = .ifPresent then .error .badSyntax else .ok { o with condition := .ifMissing }
  | .ifPresent => if o.condition = .ifMissing then .error .badSyntax else .ok { o with condition := .ifPresent }
  | .lasts arg .seconds =>
    if o.hasUnit .milliseconds then .error .badSyntax else .ok { o with expire := some (arg, .seconds) }
  | .lasts arg .milliseconds =>
    if o.hasUnit .seconds then .error .badSyntax else .ok { o with expire := some (arg, .milliseconds) }

/-! ## Reading words -/

/-- A word that spells an option spells no other. -/
theorem isWord_eq {a b : String} (h : isWord word a = true) :
    isWord word b = (Bytes.lower (Bytes.ofString a) == Bytes.lower (Bytes.ofString b)) := by
  rw [isWord, Bytes.eqIgnoringCase_eq, beq_iff_eq] at h
  rw [isWord, Bytes.eqIgnoringCase_eq, h]

theorem readOn_nx (h : isWord word "nx" = true) :
    readOn o (word :: words) = o.take .ifMissing >>= (readOn · words) := by
  have hxx : isWord word "xx" = false := isWord_eq h
  have hex : isWord word "ex" = false := isWord_eq h
  have hpx : isWord word "px" = false := isWord_eq h
  by_cases hc : o.condition = .ifPresent <;> cases words <;> simp [readOn, take, h, hxx, hex, hpx, hc] <;> rfl

theorem readOn_xx (h : isWord word "xx" = true) :
    readOn o (word :: words) = o.take .ifPresent >>= (readOn · words) := by
  have hnx : isWord word "nx" = false := isWord_eq h
  have hex : isWord word "ex" = false := isWord_eq h
  have hpx : isWord word "px" = false := isWord_eq h
  by_cases hc : o.condition = .ifMissing <;> cases words <;> simp [readOn, take, h, hnx, hex, hpx, hc] <;> rfl

theorem readOn_ex (h : isWord word "ex" = true) :
    readOn o (word :: arg :: words) = o.take (.lasts arg .seconds) >>= (readOn · words) := by
  have hnx : isWord word "nx" = false := isWord_eq h
  have hxx : isWord word "xx" = false := isWord_eq h
  have hpx : isWord word "px" = false := isWord_eq h
  cases hu : o.hasUnit .milliseconds <;> simp [readOn, take, h, hnx, hxx, hpx, hu] <;> rfl

theorem readOn_px (h : isWord word "px" = true) :
    readOn o (word :: arg :: words) = o.take (.lasts arg .milliseconds) >>= (readOn · words) := by
  have hnx : isWord word "nx" = false := isWord_eq h
  have hxx : isWord word "xx" = false := isWord_eq h
  have hex : isWord word "ex" = false := isWord_eq h
  cases hu : o.hasUnit .seconds <;> simp [readOn, take, h, hnx, hxx, hex, hu] <;> rfl

/-- Words that spell options are read as these, one after another. -/
theorem readOn_of_spells (h : Spells words os) : readOn o words = os.foldlM take o := by
  induction h generalizing o with
  | nil => rfl
  | nx hword _ ih => simp only [readOn_nx hword, ih, List.foldlM_cons]
  | xx hword _ ih => simp only [readOn_xx hword, ih, List.foldlM_cons]
  | ex hword _ ih => simp only [readOn_ex hword, ih, List.foldlM_cons]
  | px hword _ ih => simp only [readOn_px hword, ih, List.foldlM_cons]

/-- Words that are read spell options. -/
theorem exists_spells_of_readOn (h : readOn o words = .ok o') : ∃ os, Spells words os := by
  fun_induction readOn o words with
  | case1 => exact ⟨[], .nil⟩
  | case2 o word rest hword ih =>
      obtain ⟨os, hos⟩ := ih h
      exact ⟨_, .nx (Bool.and_eq_true_iff.mp hword).1 hos⟩
  | case3 o word rest _ hword ih =>
      obtain ⟨os, hos⟩ := ih h
      exact ⟨_, .xx (Bool.and_eq_true_iff.mp hword).1 hos⟩
  | case5 o word _ _ arg rest hword ih =>
      obtain ⟨os, hos⟩ := ih h
      exact ⟨_, .ex (Bool.and_eq_true_iff.mp hword).1 hos⟩
  | case6 o word _ _ arg rest _ hword ih =>
      obtain ⟨os, hos⟩ := ih h
      exact ⟨_, .px (Bool.and_eq_true_iff.mp hword).1 hos⟩
  | case4 | case7 => cases h

theorem eq_badSyntax_of_readOn (h : readOn o words = .error e) : e = .badSyntax := by
  fun_induction readOn o words with
  | case1 => cases h
  | case2 _ _ _ _ ih | case3 _ _ _ _ _ ih | case5 _ _ _ _ _ _ _ ih | case6 _ _ _ _ _ _ _ _ ih => exact ih h
  | case4 | case7 => exact (Except.error.inj h).symm

/-! ## Options that go together -/

theorem condition_of_eq_ifMissing : (of os).condition = .ifMissing ↔ .ifMissing ∈ os := by
  simp only [of]
  split_ifs <;> simp_all

theorem condition_of_eq_ifPresent (h : Compatible os) : (of os).condition = .ifPresent ↔ .ifPresent ∈ os := by
  have hcondition := h.condition
  simp only [of]
  split_ifs <;> simp_all

theorem mem_lasts {u : TimeUnit} : (arg, u) ∈ os.filterMap SetOption.lasts? ↔ .lasts arg u ∈ os := by
  rw [List.mem_filterMap]
  constructor
  · rintro ⟨x, hx, hlasts⟩
    cases x with
    | ifMissing | ifPresent => cases hlasts
    | lasts a v =>
        cases hlasts
        exact hx
  · exact fun h => ⟨_, h, rfl⟩

/-- Compatible options have their times to live in the unit of the last one. -/
theorem hasUnit_of {u : TimeUnit} (h : Compatible os) : (of os).hasUnit u = true ↔ ∃ arg, .lasts arg u ∈ os := by
  have hunit : ∀ a b v, .lasts a u ∈ os → .lasts b v ∈ os → v = u := by
    intro a b v ha hb
    cases u <;> cases v
    · rfl
    · exact absurd hb (h.unit a b ha)
    · exact absurd ha (h.unit b a hb)
    · rfl
  show ((os.filterMap SetOption.lasts?).getLast?.any (·.2 == u)) = true ↔ _
  cases hlast : (os.filterMap SetOption.lasts?).getLast? with
  | none =>
      have hnil : os.filterMap SetOption.lasts? = [] := List.getLast?_eq_none_iff.mp hlast
      refine iff_of_false (by simp) ?_
      rintro ⟨arg, harg⟩
      rw [← mem_lasts, hnil] at harg
      cases harg
  | some p =>
      obtain ⟨b, v⟩ := p
      have hb : .lasts b v ∈ os := mem_lasts.mp (List.mem_of_getLast? hlast)
      rw [Option.any_some, beq_iff_eq]
      refine ⟨fun hv => ⟨b, hv ▸ hb⟩, ?_⟩
      rintro ⟨arg, harg⟩
      exact hunit arg b v harg hb

theorem compatible_append : Compatible (os ++ [x]) ↔ Compatible os ∧ match x with
    | .ifMissing => .ifPresent ∉ os
    | .ifPresent => .ifMissing ∉ os
    | .lasts _ .seconds => ∀ arg, .lasts arg .milliseconds ∉ os
    | .lasts _ .milliseconds => ∀ arg, .lasts arg .seconds ∉ os := by
  constructor
  · intro h
    refine ⟨⟨fun hm hp => h.condition (by simp [hm]) (by simp [hp]), ?_⟩, ?_⟩
    · exact fun a b ha hb => h.unit a b (by simp [ha]) (by simp [hb])
    rcases x with _ | _ | ⟨a, _ | _⟩
    · exact fun hp => h.condition (by simp) (by simp [hp])
    · exact fun hm => h.condition (by simp [hm]) (by simp)
    · exact fun b hb => h.unit a b (by simp) (by simp [hb])
    · exact fun b hb => h.unit b a (by simp [hb]) (by simp)
  · rintro ⟨h, hx⟩
    rcases x with _ | _ | ⟨a, _ | _⟩
    · exact ⟨fun _ => by simpa using hx, by simpa using h.unit⟩
    · exact ⟨fun hm => absurd hm (by simpa using hx), by simpa using h.unit⟩
    · exact ⟨by simpa using h.condition, fun _ b _ => by simpa using hx b⟩
    · exact ⟨by simpa using h.condition, fun b _ hb => absurd hb (by simpa using hx b)⟩

theorem ite_eq_ok {c : Prop} [Decidable c] : (if c then .error e else .ok o' : Except Error SetOptions) = .ok o ↔
    ¬ c ∧ o = o' := by
  split <;> simp_all [eq_comm]

/-- An option is taken after compatible ones if it goes together with them. -/
theorem take_of (h : Compatible os) : (of os).take x = .ok o ↔ Compatible (os ++ [x]) ∧ o = of (os ++ [x]) := by
  rw [compatible_append, and_iff_right h]
  rcases x with _ | _ | ⟨arg, _ | _⟩ <;> rw [take, ite_eq_ok]
  · rw [condition_of_eq_ifPresent h]
    simp [of, SetOption.lasts?]
  · rw [condition_of_eq_ifMissing]
    refine and_congr_right fun hm => ?_
    simp [of, hm, SetOption.lasts?]
  · rw [hasUnit_of h, not_exists]
    simp [of, SetOption.lasts?]
  · rw [hasUnit_of h, not_exists]
    simp [of, SetOption.lasts?]

theorem foldlM_take : os.foldlM take {} = .ok o ↔ Compatible os ∧ o = of os := by
  induction os using List.reverseRecOn generalizing o with
  | nil =>
      have hnil : Compatible [] := ⟨nofun, nofun⟩
      have hok : List.foldlM take {} [] = .ok (of []) := rfl
      rw [hok]
      simp [hnil, eq_comm]
  | append_singleton os x ih =>
      have hlast : (os ++ [x]).foldlM take {} = os.foldlM take {} >>= (take · x) := by simp
      rw [hlast]
      constructor
      · intro h
        cases hr : os.foldlM take {} with
        | error e =>
            rw [hr] at h
            cases h
        | ok o₁ =>
            rw [hr] at h
            obtain ⟨hc, rfl⟩ := ih.mp hr
            exact (take_of hc).mp h
      · intro h
        have hc : Compatible os := (compatible_append.mp h.1).1
        rw [ih.mpr ⟨hc, rfl⟩]
        exact (take_of hc).mpr h

/-- The words of SET are read if they spell options that do not exclude one another, and stand for these. -/
theorem ofWords_eq_ok : ofWords words = .ok o ↔ ∃ os, Spells words os ∧ Compatible os ∧ o = of os := by
  constructor
  · intro h
    obtain ⟨os, hos⟩ := exists_spells_of_readOn h
    exact ⟨os, hos, foldlM_take.mp (readOn_of_spells hos ▸ h)⟩
  · rintro ⟨os, hos, h⟩
    exact (readOn_of_spells hos).trans (foldlM_take.mpr h)

end SetOptions

end GraceStore
