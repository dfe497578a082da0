import MirrorAdapter.FileSystem.Update
import MirrorAdapter.Proofs.FileSystem.Routes

/-!
# The directory of a path

A path goes on from its parent with a slash. So whoever follows a path comes
through its parent, which leads to a directory then; but if a NUL byte ends
the parent, it ends the path at the same place, and both lead to one node.
-/
namespace MirrorAdapter

theorem Text.beforeNul_append_of_not_mem {s : Text} (plain : (0 : Byte) ∉ s)
    (more : Text) : Text.beforeNul (s ++ more) = s ++ Text.beforeNul more :=
  List.takeWhile_append_of_pos
    fun _ inside => bne_iff_ne.mpr fun nul => plain (nul ▸ inside)

theorem Text.beforeNul_eq_self {s : Text} (plain : (0 : Byte) ∉ s) :
    s.beforeNul = s := by
  simpa [Text.beforeNul] using Text.beforeNul_append_of_not_mem plain []

namespace Path

/-- A path goes on from its parent with a slash; where it starts with its last
slashes, the parent is the root. -/
theorem exists_eq_append_slash {p : Path}
    (named : p.isNameless = false) (inside : parent p ≠ []) :
    ∃ front rest, p = front ++ ('/' : Byte) :: rest ∧
      (parent p = front ∨ front = [] ∧ parent p = "/") := by
  have split : p = ((p.reverse.takeWhile fun b : Byte => b != '/') ++
      p.reverse.dropWhile fun b : Byte => b != '/').reverse := by
    rw [List.takeWhile_append_dropWhile, List.reverse_reverse]
  cases behind : p.reverse.dropWhile fun b : Byte => b != '/' with
  | nil => simp [parent, named, dropFileName, dropSlashes, behind] at inside
  | cons slash back =>
    obtain rfl : slash = '/' := by
      have stops :=
        List.head_dropWhile_not (fun b : Byte => b != '/')
          (w := by rw [behind]; exact List.cons_ne_nil _ _)
      simpa [behind] using stops
    have directory : dropFileName p = back.reverse ++ [('/' : Byte)] := by
      simp [dropFileName, behind]
    have short :
        dropSlashes (dropFileName p) =
          (back.dropWhile fun b : Byte => b == '/').reverse := by
      simp [dropSlashes, directory]
    -- Between the parent and the file name there are slashes only.
    obtain ⟨rest, slashes⟩ :
        ∃ rest,
          (back.takeWhile fun b : Byte => b == '/').reverse ++ [('/' : Byte)] =
            ('/' : Byte) :: rest := by
      have all :=
        List.all_takeWhile (l := back) (p := fun b : Byte => b == '/')
      cases more : (back.takeWhile fun b : Byte => b == '/').reverse with
      | nil => exact ⟨[], rfl⟩
      | cons b others =>
        have first : b ∈ back.takeWhile fun b : Byte => b == '/' := by
          rw [← List.mem_reverse, more]
          exact .head _
        rw [List.all_eq_true] at all
        rw [eq_of_beq (all b first)]
        exact ⟨_, rfl⟩
    refine ⟨dropSlashes (dropFileName p), rest ++ fileName p, ?_, ?_⟩
    · rw [← List.cons_append, ← slashes, short, ← List.append_assoc,
        ← List.append_assoc, ← List.reverse_append,
        List.takeWhile_append_dropWhile, fileName]
      conv => lhs; rw [split, behind]
      simp
    · rw [parent, named, if_neg (by simp)]
      dsimp only
      split
      · rename_i empty
        exact .inr ⟨by simpa [directory] using empty, rfl⟩
      · exact .inl rfl

theorem parent_of_isNameless {p : Path} (nameless : p.isNameless = true) :
    parent p = p := by
  rw [parent, if_pos nameless]

/-- A path without NUL bytes has a parent without any. -/
theorem nul_not_mem_parent {p : Path} (plain : (0 : Byte) ∉ p) :
    (0 : Byte) ∉ parent p := by
  cases nameless : p.isNameless with
  | true => rwa [parent_of_isNameless nameless]
  | false =>
    intro nul
    obtain ⟨front, rest, rfl, same | ⟨-, root⟩⟩ :=
      exists_eq_append_slash nameless (List.ne_nil_of_mem nul)
    · exact plain (List.mem_append_left _ (same ▸ nul))
    · exact absurd (root ▸ nul) (by decide)

end Path

namespace FileSystem

variable {fs : FileSystem} {p : Path} {route : Route}

/-- A path of slashes alone leads to the root. -/
theorem status_of_isNameless (nameless : p.isNameless = true)
    (nonempty : p ≠ []) (located : fs.locate p = .ok route) :
    fs.status p = .ok .directory := by
  have stays (start : Route) : (Path.parts p).foldl step start = start := by
    clear nonempty located
    induction p with
    | nil => simp [Path.parts, step]
    | cons b p ih =>
      simp only [Path.isNameless, List.all_cons, Bool.and_eq_true, beq_iff_eq]
        at nameless ih
      simp [Path.parts, nameless.1, step, ih nameless.2]
  have slashes : ∀ b ∈ p, b = ('/' : Byte) := by
    simpa [Path.isNameless] using nameless
  have whole : p.beforeNul = p :=
    Text.beforeNul_eq_self fun nul => absurd (slashes 0 nul) (by decide)
  have absolute : Path.isAbsolute p = true := by
    obtain ⟨b, rest, rfl⟩ := List.exists_cons_of_ne_nil nonempty
    simp [Path.isAbsolute, slashes b (.head _)]
  obtain ⟨-, -, rfl⟩ := (locate_eq_ok_iff fs).mp located
  refine (status_eq_ok_iff fs).mpr ⟨_, located, ?_⟩
  rw [routeOf, wayOf, startOf, whole, absolute, stays]
  rfl

/-- Whoever follows a path has gone through directories up to each of its
slashes. -/
theorem status_of_slash {front rest : Path}
    (plain : (0 : Byte) ∉ front) (nonempty : front ≠ [])
    (located : fs.locate (front ++ ('/' : Byte) :: rest) = .ok route) :
    fs.status front = .ok .directory := by
  obtain ⟨followable, way, -⟩ := (locate_eq_ok_iff fs).mp located
  have whole : front.beforeNul = front := Text.beforeNul_eq_self plain
  have longer :
      Text.beforeNul (front ++ ('/' : Byte) :: rest) =
        front ++ ('/' : Byte) :: Text.beforeNul rest :=
    Text.beforeNul_append_of_not_mem plain _
  have parts :
      wayOf (front ++ ('/' : Byte) :: rest) =
        wayOf front ++ Path.parts (Text.beforeNul rest) := by
    rw [wayOf, longer, Path.parts_append_slash, wayOf, whole]
  have start :
      startOf fs.working (front ++ ('/' : Byte) :: rest) =
        startOf fs.working front := by
    obtain ⟨b, others, rfl⟩ := List.exists_cons_of_ne_nil nonempty
    rw [startOf, longer, startOf, whole]
    rfl
  rw [passedBy, parts, start, passed_append, List.forall_mem_append] at way
  refine (status_eq_ok_iff fs).mpr ⟨routeOf fs.working front, ?_, ?_⟩
  · refine (locate_eq_ok_iff fs).mpr
      ⟨⟨by rwa [whole], ?_, fun part found => ?_⟩, way.1, rfl⟩
    · have length := followable.length
      rw [longer, List.length_append] at length
      rw [whole]
      omega
    · exact followable.names part
        (by rw [parts]; exact List.mem_append_left _ found)
  · obtain ⟨part, others, further⟩ :=
      List.exists_cons_of_ne_nil (Path.parts_ne_nil (Text.beforeNul rest))
    refine way.2 _ ?_
    rw [further, passed]
    exact .head _

/-- Where a path can be followed, its parent leads to a directory. -/
theorem status_parent (plain : (0 : Byte) ∉ Path.parent p)
    (inside : Path.parent p ≠ []) (located : fs.locate p = .ok route) :
    fs.status (Path.parent p) = .ok .directory := by
  cases nameless : p.isNameless with
  | true =>
    rw [Path.parent_of_isNameless nameless] at inside ⊢
    exact status_of_isNameless nameless inside located
  | false =>
    obtain ⟨front, rest, rfl, same | ⟨-, root⟩⟩ :=
      Path.exists_eq_append_slash nameless inside
    · rw [same] at plain inside ⊢
      exact status_of_slash plain inside located
    · rw [root]
      rfl

/-- A NUL byte in the parent of a path ends both at the same place. -/
theorem status_parent_of_nul (fs : FileSystem)
    (nul : (0 : Byte) ∈ Path.parent p) :
    fs.status (Path.parent p) = fs.status p := by
  cases nameless : p.isNameless with
  | true => rw [Path.parent_of_isNameless nameless]
  | false =>
    obtain ⟨front, rest, rfl, same | ⟨-, root⟩⟩ :=
      Path.exists_eq_append_slash nameless (List.ne_nil_of_mem nul)
    · rw [same] at nul ⊢
      obtain ⟨a, b, rfl, first⟩ := List.eq_append_cons_of_mem nul
      refine status_congr fs ?_
      rw [List.append_assoc, Text.beforeNul_append_of_not_mem first,
        Text.beforeNul_append_of_not_mem first]
      rfl
    · exact absurd (root ▸ nul) (by decide)

end FileSystem
end MirrorAdapter
