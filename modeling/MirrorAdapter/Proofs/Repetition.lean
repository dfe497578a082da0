import MirrorAdapter.Repetition
import Mathlib.Data.Finset.Card
import Mathlib.Data.List.Induction
import Mathlib.Data.List.Nodup

/-!
# Repeated keys

Which elements of a list repeat a key, said position by position: an element
is paired with the first element before it that has its key. So nothing is
paired exactly when the keys are distinct, and the keys of the elements that
are not paired are distinct whatever the list.
-/
namespace MirrorAdapter
namespace Repetition

variable {α : Type}

theorem withFirst_concat (key : α → Text) (elements : List α) (a : α) :
    withFirst key (elements ++ [a]) =
      withFirst key elements ++ [(a, elements.find? (key · == key a))] := by
  suffices h :
      ∀ seen, withFirstFrom key seen (elements ++ [a]) =
          withFirstFrom key seen elements ++
            [(a, (seen ++ elements).find? (key · == key a))] from h []
  induction elements with
  | nil =>
    intro seen
    simp only [List.nil_append, List.append_nil, withFirstFrom]
    split <;> rename_i found <;> rw [found]
  | cons b rest ih =>
    intro seen
    simp only [List.cons_append, withFirstFrom]
    cases found : seen.find? (key · == key b) with
    | none => simp [ih]
    | some first =>
      -- `b` is not kept, but its key has been seen, so no search would end at
      -- it.
      have skipped : (seen ++ b :: rest).find? (key · == key a) =
          (seen ++ rest).find? (key · == key a) := by
        simp only [List.find?_append, List.find?_cons]
        by_cases same : key b = key a
        · rw [← same, found]
          simp
        · rw [beq_eq_false_iff_ne.mpr same]
      simp [ih, skipped]

/-- Elements pair as the elements they are made from. -/
theorem withFirst_map {β : Type} (key : β → Text)
    (f : α → β) (elements : List α) :
    withFirst key (elements.map f) =
      (withFirst (fun a => key (f a)) elements).map
        (Prod.map f (Option.map f)) := by
  suffices h :
      ∀ seen : List α, withFirstFrom key (seen.map f) (elements.map f) =
          (withFirstFrom (fun a => key (f a)) seen elements).map
            (Prod.map f (Option.map f)) from h []
  induction elements with
  | nil => exact fun _ => rfl
  | cons a rest ih =>
    intro seen
    rw [List.map_cons, withFirstFrom, withFirstFrom, List.find?_map]
    cases found : seen.find? (fun b => key (f b) == key (f a)) with
    | none =>
      rw [show seen.find? ((key · == key (f a)) ∘ f) = none from found]
      have further := ih (seen ++ [a])
      rw [List.map_append] at further
      exact congrArg ((f a, none) :: ·) further
    | some first =>
      rw [show seen.find? ((key · == key (f a)) ∘ f) = some first from found]
      exact congrArg ((f a, some (f first)) :: ·) (ih seen)

theorem repeats_map {β : Type} (key : β → Text)
    (f : α → β) (elements : List α) :
    repeats key (elements.map f) =
      (repeats (fun a => key (f a)) elements).map (Prod.map f f) := by
  rw [repeats, withFirst_map, List.filterMap_map, repeats, List.map_filterMap]
  refine List.filterMap_congr fun pair _ => ?_
  obtain ⟨a, _ | first⟩ := pair <;> rfl

theorem repeats_concat (key : α → Text) (elements : List α) (a : α) :
    repeats key (elements ++ [a]) = repeats key elements ++
        ((elements.find? (key · == key a)).map (a, ·)).toList := by
  simp only [repeats, withFirst_concat, List.filterMap_append]
  cases elements.find? (key · == key a) <;> rfl

theorem find?_eq_none_iff (key : α → Text) (elements : List α) (k : Text) :
    elements.find? (key · == k) = none ↔ k ∉ elements.map key := by
  simp

/-- Nothing repeats iff the keys are distinct. -/
theorem repeats_eq_nil_iff (key : α → Text) (elements : List α) :
    repeats key elements = [] ↔ (elements.map key).Nodup := by
  induction elements using List.reverseRecOn with
  | nil => simp [repeats, withFirst, withFirstFrom]
  | append_singleton elements a ih =>
    rw [repeats_concat, List.append_eq_nil_iff, ih, List.map_append,
      List.map_singleton, ← List.concat_eq_append, List.nodup_concat,
      ← find?_eq_none_iff]
    cases elements.find? (key · == key a) <;> simp

/-- What stands at a position is paired with the first before it that has its
key. -/
theorem withFirst_getElem? (key : α → Text) (elements : List α) (i : Nat) :
    (withFirst key elements)[i]? = elements[i]?.map
        fun a => (a, (elements.take i).find? (key · == key a)) := by
  induction elements using List.reverseRecOn with
  | nil => simp [withFirst, withFirstFrom]
  | append_singleton elements a ih =>
    have length : (withFirst key elements).length = elements.length := by
      simpa using congrArg List.length (withFirst_map_fst key elements)
    rw [withFirst_concat]
    rcases Nat.lt_trichotomy i elements.length with inside | rfl | outside
    · rw [List.getElem?_append_left (by omega),
        List.getElem?_append_left inside,
        List.take_append_of_le_length (by omega), ih]
    · simp [← length]
    · rw [List.getElem?_eq_none (by simp; omega),
        List.getElem?_eq_none (by simp; omega)]
      rfl

/-- The elements that come first with their keys, in order. -/
def firsts (key : α → Text) (elements : List α) : List α :=
  ((withFirst key elements).filter (·.2.isNone)).map (·.1)

theorem firsts_concat (key : α → Text) (elements : List α) (a : α) :
    firsts key (elements ++ [a]) =
      firsts key elements ++ if key a ∈ elements.map key then [] else [a] := by
  rw [firsts, withFirst_concat, List.filter_append, List.map_append, ← firsts]
  congr 1
  split <;> rename_i known
  · have :=
      mt (find?_eq_none_iff key elements (key a)).mp (not_not_intro known)
    simp [Option.isNone_iff_eq_none, this]
  · simp [(find?_eq_none_iff key elements (key a)).mpr known]

theorem map_firsts_subset (key : α → Text) (elements : List α) :
    firsts key elements ⊆ elements := by
  intro a found
  obtain ⟨pair, kept, rfl⟩ := List.mem_map.mp found
  rw [← withFirst_map_fst key elements]
  exact List.mem_map_of_mem (List.mem_filter.mp kept).1

theorem nodup_firsts (key : α → Text) (elements : List α) :
    ((firsts key elements).map key).Nodup := by
  induction elements using List.reverseRecOn with
  | nil => simp [firsts, withFirst, withFirstFrom]
  | append_singleton elements a ih =>
    rw [firsts_concat]
    split <;> rename_i known
    · simpa using ih
    · rw [List.map_append, List.map_singleton, ← List.concat_eq_append,
        List.nodup_concat]
      exact ⟨fun again =>
          known (List.map_subset key (map_firsts_subset key elements) again),
        ih⟩

/-- Every key has a first element. -/
theorem mem_map_firsts (key : α → Text) (elements : List α) (k : Text) :
    k ∈ (firsts key elements).map key ↔ k ∈ elements.map key := by
  induction elements using List.reverseRecOn with
  | nil => simp [firsts, withFirst, withFirstFrom]
  | append_singleton elements a ih =>
    rw [firsts_concat, List.map_append, List.map_append, List.mem_append,
      List.mem_append, ih]
    split <;> rename_i known
    · have again : k ∈ [a].map key → k ∈ elements.map key := by
        rintro (_ | ⟨_, ⟨⟩⟩)
        exact known
      simpa using again
    · rfl

/-- An element comes first with its key at some position. -/
theorem mem_firsts {key : α → Text} {elements : List α}
    {a : α} (h : a ∈ firsts key elements) :
    ∃ i : Nat, (withFirst key elements)[i]? = some (a, none) ∧
      elements[i]? = some a ∧ key a ∉ (elements.take i).map key := by
  obtain ⟨⟨b, before⟩, kept, rfl⟩ := List.mem_map.mp h
  obtain ⟨found, unpaired⟩ := List.mem_filter.mp kept
  obtain rfl : before = none := by simpa using unpaired
  obtain ⟨i, hi⟩ := List.mem_iff_getElem?.mp found
  have same := hi
  rw [withFirst_getElem?, Option.map_eq_some_iff] at same
  obtain ⟨c, here, pair⟩ := same
  obtain ⟨rfl, none_before⟩ := Prod.mk.inj pair
  exact ⟨i, hi, here, (find?_eq_none_iff key _ _).mp none_before⟩

theorem firsts_map {β : Type} (key : β → Text) (f : α → β) (elements : List α) :
    firsts key (elements.map f) =
      (firsts (fun a => key (f a)) elements).map f := by
  have unpaired :
      ((fun pair : β × Option β => pair.2.isNone) ∘ Prod.map f (Option.map f)) =
      fun pair : α × Option α => pair.2.isNone := by
    funext ⟨a, first⟩
    exact Option.isNone_map
  rw [firsts, withFirst_map, List.filter_map, unpaired, firsts,
    List.map_map, List.map_map]
  rfl

/-- The first elements are as many as there are distinct keys. -/
theorem length_firsts (key : α → Text) (elements : List α) :
    (firsts key elements).length = (elements.map key).toFinset.card := by
  have keys :
      (elements.map key).toFinset =
        ((firsts key elements).map key).toFinset := by
    ext k
    rw [List.mem_toFinset, List.mem_toFinset, mem_map_firsts]
  rw [keys, List.toFinset_card_of_nodup (nodup_firsts key elements),
    List.length_map]

/-- What is searched by its key is found among the first elements. -/
theorem find?_firsts (key : α → Text) (elements : List α) (k : Text) :
    (firsts key elements).find? (key · == k) = elements.find? (key · == k) := by
  induction elements using List.reverseRecOn with
  | nil => rfl
  | append_singleton elements a ih =>
    rw [firsts_concat, List.find?_append, ih, List.find?_append]
    split
    case isFalse => rfl
    case isTrue known =>
      -- An element that is left out would be found only after the first one
      -- of its key.
      by_cases same : key a = k
      · subst same
        cases found : elements.find? (key · == key a) with
        | some first => rfl
        | none =>
          exact absurd known ((find?_eq_none_iff key elements (key a)).mp found)
      · simp [same]

/-! ## Positions -/

/-- The positions of keys that occur at an earlier position, in order. -/
def repeatPositions (keys : List Text) : List Nat :=
  (List.range keys.length).filter fun j => ∃ i < j, keys[i]? = keys[j]?

theorem repeatPositions_concat (keys : List Text) (k : Text) :
    repeatPositions (keys ++ [k]) =
      repeatPositions keys ++ if k ∈ keys then [keys.length] else [] := by
  have inside :
      ∀ j ∈ List.range keys.length,
        decide (∃ i < j, (keys ++ [k])[i]? = (keys ++ [k])[j]?) =
          decide (∃ i < j, keys[i]? = keys[j]?) := by
    intro j bound
    have bound : j < keys.length := List.mem_range.mp bound
    refine decide_eq_decide.mpr
      (exists_congr fun i => and_congr_right fun before => ?_)
    rw [List.getElem?_append_left (by omega), List.getElem?_append_left bound]
  have last :
      (∃ i < keys.length, (keys ++ [k])[i]? = (keys ++ [k])[keys.length]?) ↔
        k ∈ keys := by
    rw [List.mem_iff_getElem?, List.getElem?_concat_length]
    constructor
    · rintro ⟨i, before, same⟩
      exact ⟨i, by rwa [List.getElem?_append_left before] at same⟩
    · rintro ⟨i, found⟩
      have before : i < keys.length := (List.getElem?_eq_some_iff.mp found).1
      exact ⟨i, before, by rwa [List.getElem?_append_left before]⟩
  rw [repeatPositions, List.length_append, List.length_singleton,
    List.range_succ, List.filter_append, List.filter_congr inside,
    ← repeatPositions]
  simp only [List.filter_singleton, last]
  split <;> simp_all

/-- The positions of repeated keys are as many as the keys, less the distinct
ones. -/
theorem length_repeatPositions (keys : List Text) :
    (repeatPositions keys).length + keys.toFinset.card = keys.length := by
  induction keys using List.reverseRecOn with
  | nil => rfl
  | append_singleton keys k ih =>
    rw [repeatPositions_concat, List.length_append, List.length_append,
      List.toFinset_append]
    by_cases known : k ∈ keys
    · have same : keys.toFinset ∪ [k].toFinset = keys.toFinset := by
        simpa [Finset.union_eq_left] using known
      rw [if_pos known, same]
      simp only [List.length_singleton]
      omega
    · have one_more :
          (keys.toFinset ∪ [k].toFinset).card = keys.toFinset.card + 1 := by
        rw [Finset.card_union_of_disjoint (by simpa using known)]
        rfl
      rw [if_neg known, one_more]
      simp only [List.length_nil, List.length_singleton]
      omega

/-- What repeats, position by position: the element there and the first of all
that have its key. -/
theorem forall₂_repeats (key : α → Text) (elements : List α) :
    List.Forall₂ (fun j pair => elements[j]? = some pair.1 ∧
          elements.find? (key · == key pair.1) = some pair.2)
      (repeatPositions (elements.map key)) (repeats key elements) := by
  induction elements using List.reverseRecOn with
  | nil => exact .nil
  | append_singleton elements a ih =>
    rw [List.map_append, List.map_singleton, repeatPositions_concat,
      repeats_concat]
    refine List.rel_append (ih.imp ?_) ?_
    · rintro j ⟨b, first⟩ ⟨here, found⟩
      have inside : j < elements.length :=
        (List.getElem?_eq_some_iff.mp here).1
      refine ⟨by rwa [List.getElem?_append_left inside], ?_⟩
      rw [List.find?_append, found]
      rfl
    · cases found : elements.find? (key · == key a) with
      | none =>
        rw [if_neg ((find?_eq_none_iff key elements (key a)).mp found)]
        exact .nil
      | some first =>
        have same : key first = key a := by simpa using List.find?_some found
        have known : key a ∈ elements.map key :=
          same ▸ List.mem_map_of_mem (List.mem_of_find?_eq_some found)
        rw [if_pos known]
        refine .cons ⟨by simp, ?_⟩ .nil
        rw [List.find?_append, found]
        rfl

end Repetition
end MirrorAdapter
