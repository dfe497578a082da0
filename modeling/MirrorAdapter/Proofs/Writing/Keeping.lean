import MirrorAdapter.Proofs.Writing.Runs

/-!
# Runs that overwrite nothing

Where existing files are kept, an output is written only where nothing is, and
a write that fails has made directories at most. So all that was there before
a run is there after it, however far it came, and the new files are those of
the outputs it has written.
-/
namespace MirrorAdapter

open FileSystem (Grows Puts Preserves routeOf)

namespace Output

variable {policy : Policy} {fs after : FileSystem} {o : Output}

/-- The device has failed an output, with an error if the run says so, and has
stored so much of it. -/
def Remains (policy : Policy) (fs : FileSystem) (o : Output)
    (e : Option Error) (f : StoredFile) : Prop :=
  ∃ fault, o.fault fs = some fault ∧ e = some (.ofFault o.path fault) ∧
    f = Fault.remnant (o.stored policy) (some fault)

section
variable (keep : policy.noOverwrite = true)
include keep

variable (wet : policy.dryRun = false)
include wet

/-- What can be written is written where nothing was. -/
theorem vacant_of_write (h : write policy fs o = (after, none)) :
    fs.get? (routeOf fs.working o.path) = none := by
  rcases write_cases wet fs o with ⟨_, e, failed, -⟩ | ⟨_, -, -, vacant⟩
  · rw [failed] at h
    cases h
  · exact vacant keep

theorem preserves_of_write (h : write policy fs o = (after, none)) :
    Preserves fs after :=
  (puts_write wet h).preserves (vacant_of_write keep wet h)

/-- A write that fails makes directories at most, but for what the device has
left of the file where nothing was. -/
theorem of_failed_write {e : Error} (h : write policy fs o = (after, some e)) :
    Preserves fs after ∧ ∀ r f,
      (after.get? r = some (.file f) ↔ fs.get? r = some (.file f) ∨
        after.locate o.path = .ok r ∧ Remains policy fs o (some e) f) ∧
      (after.locate o.path = .ok r → Remains policy fs o (some e) f →
        fs.get? r = none) := by
  rcases write_cases wet fs o
      with ⟨_, _, failed, other, -, grows⟩ | ⟨_, written, put, vacant⟩
  · obtain ⟨rfl, same⟩ := Prod.mk.inj (h.symm.trans failed)
    obtain rfl := Option.some.inj same
    have nothing (f : StoredFile) : ¬Remains policy fs o (some e) f := by
      rintro ⟨fault, -, told, -⟩
      exact other fault (Option.some.inj told)
    refine ⟨(grows keep).preserves,
      fun r f => ⟨?_, fun _ remains => absurd remains (nothing f)⟩⟩
    rw [(grows keep).file_iff r, iff_self_or]
    exact fun remains => absurd remains.2 (nothing f)
  · obtain ⟨rfl, told⟩ := Prod.mk.inj (h.symm.trans written)
    obtain ⟨fault, failed, rfl⟩ := Option.map_eq_some_iff.mp told.symm
    rw [failed] at put
    have located {r : Route} (led : after.locate o.path = .ok r) :
        r = routeOf fs.working o.path :=
      Except.ok.inj (led.symm.trans put.located)
    refine ⟨put.preserves (vacant keep),
      fun r f => ⟨?_, fun led _ => located led ▸ vacant keep⟩⟩
    by_cases here : r = routeOf fs.working o.path
    · subst here
      rw [put.put, vacant keep, put.located]
      simp [Remains, failed, eq_comm]
    · rw [put.file_iff here, iff_self_or]
      exact fun remains => absurd (located remains.1) here

/-! ## A run up to the end or to a failing write -/

variable {done rest : List Output}

theorem Writes.preserves (h : Writes policy fs done after) :
    Preserves fs after := by
  induction h with
  | nil fs => exact .refl fs
  | cons written _ ih => exact (preserves_of_write keep wet written).trans ih

/-- Where an output was written there was nothing before the run. -/
theorem Writes.vacant (h : Writes policy fs done after) (mem : o ∈ done) :
    fs.get? (routeOf fs.working o.path) = none := by
  induction h with
  | nil => cases mem
  | @cons fs middle after first done written _ ih =>
    rcases List.mem_cons.mp mem with rfl | behind
    · exact vacant_of_write keep wet written
    · have kept := preserves_of_write keep wet written
      have still := ih behind
      rw [kept.working] at still
      cases before : fs.get? (routeOf fs.working o.path) with
      | none => rfl
      | some node =>
        rw [kept.kept _ node before] at still
        cases still

/-- Each output that was written is at its place, with all of its content. -/
theorem Writes.placed (h : Writes policy fs done after) (mem : o ∈ done) :
    after.locate o.path = .ok (routeOf fs.working o.path) ∧
    after.get? (routeOf fs.working o.path) =
      some (.file (o.stored policy)) := by
  induction h with
  | nil => cases mem
  | @cons fs middle after first done written later ih =>
    have put := puts_write wet written
    rcases List.mem_cons.mp mem with rfl | behind
    · have lasts := later.preserves keep wet
      exact ⟨lasts.locate put.located, lasts.kept _ _ put.put⟩
    · rw [← put.working]
      exact ih behind

theorem Writes.new_file_iff (h : Writes policy fs done after)
    (r : Route) (f : StoredFile) :
    after.get? r = some (.file f) ∧ fs.get? r ≠ some (.file f) ↔
      ∃ out ∈ done, after.locate out.path = .ok r ∧ f = out.stored policy := by
  constructor
  · rintro ⟨there, new⟩
    obtain ⟨out, mem, rfl, rfl⟩ :=
      (h.exists_of_file wet there).resolve_left new
    exact ⟨out, mem, (h.placed keep wet mem).1, rfl⟩
  · rintro ⟨out, mem, located, rfl⟩
    obtain ⟨place, there⟩ := h.placed keep wet mem
    obtain rfl := Except.ok.inj (place.symm.trans located)
    exact ⟨there, by simp [h.vacant keep wet mem]⟩

theorem Reaches.preserves {w : Written} (h : Reaches policy fs done rest w) :
    Preserves fs w.fileSystem := by
  cases h with
  | finished writes => exact writes.preserves keep wet
  | stopped writes failed =>
    exact (writes.preserves keep wet).trans (of_failed_write keep wet failed).1

/-- However far a run comes, the new files are those of the outputs it has
written, and what the device has left of the output that stopped it. -/
theorem Reaches.new_file_iff {w : Written}
    (h : Reaches policy fs done rest w) (r : Route) (f : StoredFile) :
    w.fileSystem.get? r = some (.file f) ∧ fs.get? r ≠ some (.file f) ↔
      (∃ out ∈ done,
          w.fileSystem.locate out.path = .ok r ∧ f = out.stored policy) ∨
      ∃ out ∈ rest.head?, w.fileSystem.locate out.path = .ok r ∧
        Remains policy fs out w.error f := by
  cases h with
  | finished writes => simpa using writes.new_file_iff keep wet r f
  | @stopped middle after o rest e writes failed =>
    obtain ⟨lasts, files⟩ := of_failed_write keep wet failed
    have kept := writes.preserves keep wet
    have place {out : Output} (mem : out ∈ done) :
        after.locate out.path = middle.locate out.path := by
      have located := (writes.placed keep wet mem).1
      rw [located, lasts.locate located]
    have same : o.fault middle = o.fault fs := by
      rw [fault, fault, writes.faults wet, kept.working]
    have written :
        (∃ out ∈ done, after.locate out.path = .ok r ∧ f = out.stored policy) ↔
          middle.get? r = some (.file f) ∧ fs.get? r ≠ some (.file f) := by
      rw [writes.new_file_iff keep wet r f]
      exact exists_congr fun out => and_congr_right fun mem => by rw [place mem]
    have left :
        (∃ out ∈ (o :: rest).head?,
            after.locate out.path = .ok r ∧ Remains policy fs out (some e) f) ↔
          after.locate o.path = .ok r ∧ Remains policy middle o (some e) f := by
      simp [Remains, same]
    dsimp only
    rw [written, left, (files r f).1]
    constructor
    · rintro ⟨there | remains, new⟩
      · exact .inl ⟨there, new⟩
      · exact .inr remains
    · rintro (⟨there, new⟩ | ⟨located, remains⟩)
      · exact ⟨.inl there, new⟩
      · have vacant := (files r f).2 located remains
        refine ⟨.inr ⟨located, remains⟩, fun before => ?_⟩
        rw [kept.kept r _ before] at vacant
        cases vacant

end

end Output
end MirrorAdapter
