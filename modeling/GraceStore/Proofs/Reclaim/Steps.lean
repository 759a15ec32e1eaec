import GraceStore.Proofs.Reclaim.Backlog

/-!
# What an operation of a realm can do

`Realm.Steps` has one constructor for each way in which an operation changes a realm, with the values it
frees; an operation that is refused changes nothing. `Realm.steps` says that there is no other way.
-/

namespace GraceStore.Realm

variable {α : Type}

/-- The domain after a grace period that a reader of its own held back for a while. -/
def across (d : Domain α) : Domain α :=
  let opened := (d.register.2.enter d.nextReader).beginGrace
  let closed := if opened.2.mayEnd opened.1 then opened.2 else opened.2.exit d.nextReader
  (closed.endGrace opened.1).2.unregister d.nextReader

section Across

variable (d : Domain α)

theorem across_sides : (across d).epoch = d.epoch + 1 ∧ (across d).id = d.id ∧
    (across d).nextReader = d.nextReader + 1 ∧ (across d).queue = [] := by
  simp only [across]
  split <;> exact ⟨rfl, rfl, rfl, rfl⟩

/-- The reader that held the grace period back leaves no trace. -/
theorem readers_across (h : ∀ x ∈ d.readers, x.id ≠ d.nextReader) :
    (across d).readers = d.readers := by
  have same (f : Reader → Reader) :
      d.readers.map (fun x => if x.id = d.nextReader then f x else x) = d.readers :=
    (List.map_congr_left fun x hx => by simp [h x hx]).trans (List.map_id _)
  have stay : d.readers.filter (·.id != d.nextReader) = d.readers :=
    List.filter_eq_self.mpr fun x hx => by simp [h x hx]
  simp only [across, Domain.unregister, Domain.endGrace]
  split <;>
    simp [Domain.register, Domain.enter, Domain.exit, Domain.updateReader, Domain.beginGrace, same, stay]

end Across

/-- The operation `op` turns the realm `r` into another one and frees values. -/
inductive Steps (r : Realm α) : RealmOp α → List α → Realm α → Prop where
  | refused (op : RealmOp α) : Steps r op [] r
  | refusedPublish {i cell value keep} : Steps r (.publish i cell value keep) [value] r
  | cell {name value} : Steps r (.cell name value) ((r.cells.find? name).toList.map (·.value))
      { r with cells := r.cells.put name { value } }
  | publish {i cell value keep c d} (hc : r.cells.find? cell = some c) (hd : r.writer? i = some d)
      (ha : c.admits d.id) : Steps r (.publish i cell value keep) []
        ({ r.setDomain i { d with published := d.published + 1 } with
          cells := r.cells.put cell { c.bind d.id with value } }.keepRecord keep
            ⟨c.value, d.epoch, d.id⟩)
  | load {cell guard c i} (hc : r.cells.find? cell = some c) :
      Steps r (.load cell guard) [] { r with cells := r.cells.put cell (c.bind i) }
  | replaceOwned {cell value c} (hc : r.cells.find? cell = some c) :
      Steps r (.replaceOwned cell value) [c.value]
        { r with cells := r.cells.put cell { c with value } }
  | dropCell {cell c} (hc : r.cells.find? cell = some c) :
      Steps r (.dropCell cell) [c.value] { r with cells := r.cells.erase cell }
  | register {i name d} (hd : r.domain? i = some d) :
      Steps r (.register i name) []
        ((r.setDomain i d.register.2).keepReader name (i, d.nextReader))
  | unregister {name reader} (hr : r.readers.find? name = some reader) :
      Steps r (.unregister name) [] ({ r with readers := r.readers.erase name }.releaseReader reader)
  | enter {name as reader} (hr : r.readers.find? name = some reader) :
      Steps r (.enter name as) []
        ({ r with domains := r.domains.modify reader.1 (·.enter reader.2) }.keepSection as reader)
  | exit {name reader} (hs : r.sections.find? name = some reader) :
      Steps r (.exit name) [] ({ r with sections := r.sections.erase name }.closeSection reader)
  | retire {i record old d} (ho : r.records.find? record = some old) (hd : r.writer? i = some d) :
      Steps r (.retire i record) []
        ({ r with records := r.records.erase record }.setDomain i (d.defer old.toDeferred))
  | reclaim {i record old d} (ho : r.records.find? record = some old) (hd : r.writer? i = some d)
      (hi : r.inSection i = false) :
      Steps r (.reclaim i record) (d.garbage ++
          ({ r.setDomain i d.synchronize.2 with records := r.records.erase record }.freeAfter old
            ⟨d.epoch + 1, d.id⟩).1)
        ({ r.setDomain i d.synchronize.2 with records := r.records.erase record }.freeAfter old
          ⟨d.epoch + 1, d.id⟩).2
  | dropRecord {record old} (ho : r.records.find? record = some old) :
      Steps r (.dropRecord record) [] ({ r with records := r.records.erase record }.orphan old)
  | freeAfter {record grace old g} (ho : r.records.find? record = some old)
      (hg : r.graces.find? grace = some g) :
      Steps r (.freeAfter record grace)
        ({ r with records := r.records.erase record }.freeAfter old g).1
        ({ r with records := r.records.erase record }.freeAfter old g).2
  | synchronize {i keep d} (hd : r.writer? i = some d) (hi : r.inSection i = false) :
      Steps r (.synchronize i keep) d.garbage
        ((r.setDomain i d.synchronize.2).keepGrace keep ⟨d.epoch + 1, d.id⟩)
  | synchronizeAcross {i d} (hd : r.writer? i = some d) (hi : r.inSection i = false) :
      Steps r (.synchronizeAcross i) d.garbage (r.setDomain i (across d))
  | dropWriter {i} : Steps r (.dropWriter i) [] { r with retiredWriters := i :: r.retiredWriters }
  | lastGrace {i d} (hd : r.writer? i = some d) (hi : r.inSection i = false) :
      Steps r (.dropWriter i) d.garbage
        ({ r with retiredWriters := i :: r.retiredWriters }.setDomain i d.synchronize.2)

theorem steps (r : Realm α) (op : RealmOp α) : r.Steps op (r.step op).1.2 (r.step op).2 := by
  cases op with
  | cell name value => exact .cell
  | publish i cell value keep =>
      simp only [step, Cell.publish]
      split
      · rename_i c d hc hd
        by_cases ha : c.admits d.id
        · simp only [ha, if_true]
          exact .publish hc hd ha
        · simp only [ha]
          exact .refusedPublish
      · exact .refused _
  | load cell guard =>
      simp only [step, Cell.load]
      split
      · rename_i c i hc hi
        by_cases ha : c.admits i
        · simp only [ha, if_true]
          exact .load hc
        · simp only [ha]
          exact .refused _
      · exact .refused _
  | replaceOwned cell value =>
      simp only [step]
      split
      · exact .replaceOwned ‹_›
      · exact .refused _
  | dropCell cell =>
      simp only [step]
      split
      · exact .dropCell ‹_›
      · exact .refused _
  | register i name =>
      simp only [step]
      split
      · exact .register ‹_›
      · exact .refused _
  | unregister name =>
      simp only [step]
      split
      · exact .unregister ‹_›
      · exact .refused _
  | enter name as =>
      simp only [step]
      split
      · exact .enter ‹_›
      · exact .refused _
  | exit name =>
      simp only [step]
      split
      · exact .exit ‹_›
      · exact .refused _
  | retire i record =>
      simp only [step]
      split
      · exact .retire ‹_› ‹_›
      · exact .refused _
  | reclaim i record =>
      simp only [step]
      split
      · exact .refused _
      · rename_i hi
        simp only [Realm.synchronize]
        cases ho : r.records.find? record with
        | none => exact .refused _
        | some old =>
            cases hd : r.writer? i with
            | none => exact .refused _
            | some d => exact .reclaim ho hd (by simpa using hi)
  | dropRecord record =>
      simp only [step]
      split
      · exact .dropRecord ‹_›
      · exact .refused _
  | freeAfter record grace =>
      simp only [step]
      split
      · exact .freeAfter ‹_› ‹_›
      · exact .refused _
  | synchronize i keep =>
      simp only [step]
      split
      · exact .refused _
      · rename_i hi
        simp only [Realm.synchronize]
        cases hd : r.writer? i with
        | none => exact .refused _
        | some d =>
            have h : r.Steps (.synchronize i keep) d.garbage _ := .synchronize hd (by simpa using hi)
            cases keep <;> exact h
  | synchronizeAcross i =>
      simp only [step]
      split
      · exact .refused _
      · rename_i hi
        simp only [Realm.synchronizeAcross]
        cases hd : r.writer? i with
        | none => exact .refused _
        | some d => exact .synchronizeAcross hd (by simpa using hi)
  | dropWriter i =>
      simp only [step]
      split
      · exact .refused _
      · rename_i hi
        split
        · rename_i d hd
          split
          · exact .dropWriter
          · exact .lastGrace hd (by simpa using hi)
        · exact .refused _

end GraceStore.Realm
