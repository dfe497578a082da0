import Mathlib.Data.List.Induction
import MirrorAdapter.Proofs.FileSystem.Parents
import MirrorAdapter.Proofs.FileSystem.Trees

/-!
# Where normal paths lead

Whoever follows a path can leave out what its normal form leaves out: a `..`
takes back one step down from a directory, and in a tree that leads to where
the step started. So the normal form leads to the same place as the path, and
it is no longer. A path to an entry below a directory leads to the entry as
long as it is short enough to be followed.
-/
namespace MirrorAdapter

/-! ## Parts and what is made of them -/

/-- The length of a path is one less than the weight of its parts. -/
def Path.weight : List Text → Nat
  | [] => 0
  | part :: parts => part.length + 1 + weight parts

theorem Path.weight_append (front back : List Text) :
    weight (front ++ back) = weight front + weight back := by
  induction front with
  | nil => simp [weight]
  | cons part front ih =>
    rw [List.cons_append, weight, weight, ih]
    omega

theorem Path.weight_reverse (parts : List Text) :
    weight parts.reverse = weight parts := by
  induction parts with
  | nil => rfl
  | cons part parts ih =>
    rw [List.reverse_cons, weight_append, ih, weight, weight, weight]
    omega

theorem Text.length_join_succ {parts : List Text} (nonempty : parts ≠ []) :
    (Text.join "/" parts).length + 1 = Path.weight parts := by
  induction parts with
  | nil => exact absurd rfl nonempty
  | cons part parts ih =>
    cases parts with
    | nil => simp [Text.join, Path.weight]
    | cons other parts =>
      have further := ih (List.cons_ne_nil _ _)
      have slash : (Text.ofString "/").length = 1 := rfl
      simp only [Path.weight] at further ⊢
      rw [Text.join, List.length_append, List.length_append, slash]
      · omega
      · exact List.cons_ne_nil _ _

theorem Text.nul_mem_join_iff {parts : List Text} :
    (0 : Byte) ∈ Text.join "/" parts ↔ ∃ part ∈ parts, (0 : Byte) ∈ part := by
  induction parts with
  | nil => simp [Text.join]
  | cons part parts ih =>
    cases parts with
    | nil => simp [Text.join]
    | cons other parts =>
      have slash : (0 : Byte) ∉ Text.ofString "/" := by decide
      rw [Text.join, List.mem_append, List.mem_append, ih]
      · simp [slash]
      · exact List.cons_ne_nil _ _

namespace Path

theorem length_succ (p : Path) : p.length + 1 = weight p.parts := by
  rw [← Text.length_join_succ (parts_ne_nil p), join_parts]

theorem nul_not_mem_of_mem_parts {p : Path} (plain : (0 : Byte) ∉ p)
    {part : Text} (inside : part ∈ p.parts) : (0 : Byte) ∉ part := by
  intro nul
  rw [← join_parts p, Text.nul_mem_join_iff] at plain
  exact plain ⟨part, inside, nul⟩

/-- A path goes on from the root that it is written with. -/
theorem exists_eq_root_append (p : Path) : ∃ q, p = p.root ++ q := by
  unfold root
  split
  · exact ⟨[], (List.append_nil p).symm⟩
  · split
    · rename_i absolute
      cases p with
      | nil => cases absolute
      | cons b rest =>
        obtain rfl : b = '/' := by simpa [isAbsolute] using absolute
        exact ⟨rest, rfl⟩
    · exact ⟨p, rfl⟩

namespace Trail

variable {t : Trail}

theorem names_step_subset (rooted : Bool) (t : Trail) (part : Text) :
    (step rooted t part).names ⊆ part :: t.names := by
  unfold step
  split
  · exact List.subset_cons_self _ _
  split
  · split
    · split
      · exact List.subset_cons_self _ _
      · simp
    · rename_i name outer here
      rw [here]
      split
      · exact List.Subset.refl _
      · exact fun _ inside => .tail _ (.tail _ inside)
  · exact List.Subset.refl _

/-- A trail has no names but those of its parts. -/
theorem names_foldl_subset (rooted : Bool) (t : Trail) (parts : List Text) :
    (parts.foldl (step rooted) t).names ⊆ parts ++ t.names := by
  induction parts generalizing t with
  | nil => exact List.Subset.refl _
  | cons part parts ih =>
    intro name inside
    rcases List.mem_append.mp (ih _ inside) with later | before
    · exact List.mem_append_left _ (.tail _ later)
    · rcases List.mem_cons.mp (names_step_subset rooted t part before)
          with rfl | old
      · exact .head _
      · exact List.mem_append_right _ old

/-- The weight of the names, and of the slash behind them. -/
def width (t : Trail) : Nat :=
  weight t.names + if t.directory && t.endsWithName then 1 else 0

theorem width_le (t : Trail) : t.width ≤ weight t.names + 1 := by
  unfold width
  split <;> omega

theorem weight_le_width (t : Trail) : weight t.names ≤ t.width :=
  Nat.le_add_right _ _

theorem width_of_names_nil (nothing : t.names = []) : t.width = 0 := by
  simp [width, weight, endsWithName, nothing]

theorem width_push (part : Text) (names : List Text) :
    width ⟨part :: names, false⟩ = part.length + 1 + weight names := by
  simp [width, weight]

/-- A part adds its own weight at most. -/
theorem width_step (rooted : Bool) (t : Trail) (part : Text) :
    (step rooted t part).width ≤ t.width + (part.length + 1) := by
  have before := weight_le_width t
  unfold step
  split
  · have after := width_le { t with directory := true }
    dsimp only at after
    omega
  split
  · split
    · split
      · omega
      · rw [width_push]
        simp [weight]
    · rename_i name outer here
      split
      · rename_i same
        rw [here] at before
        rw [width_push, same]
        rw [same] at before
        omega
      · have after := width_le ⟨outer, true⟩
        rw [here] at before
        simp only [weight] at before after ⊢
        omega
  · rw [width_push]
    omega

theorem width_foldl (rooted : Bool) (t : Trail) (parts : List Text) :
    (parts.foldl (step rooted) t).width ≤ t.width + weight parts := by
  induction parts generalizing t with
  | nil => exact Nat.le_refl _
  | cons part parts ih =>
    have here := width_step rooted t part
    have further := ih (step rooted t part)
    simp only [weight, List.foldl_cons] at further ⊢
    omega

theorem length_body (something : t.names ≠ []) :
    t.body.length + 1 = t.width := by
  have names : (Text.join "/" t.names.reverse).length + 1 = weight t.names := by
    rw [Text.length_join_succ (mt List.reverse_eq_nil_iff.mp something),
      weight_reverse]
  have slash : (Text.ofString "/").length = 1 := rfl
  unfold body width
  dsimp only
  rw [List.length_append]
  split
  · omega
  · rw [List.length_nil]
    omega

end Trail

/-- The normal form of a path is no longer than the path. -/
theorem length_normalize_le (p : Path) : (normalize p).length ≤ p.length := by
  by_cases nonempty : p = []
  · simp [normalize, nonempty]
  obtain ⟨q, split⟩ := exists_eq_root_append p
  have length : p.length = p.root.length + q.length := by
    rw [← List.length_append, ← split]
  -- The slashes of the root make up for it, so only what follows them counts.
  have width : p.trail.width ≤ weight q.parts := by
    have start :
        ((List.replicate p.root.length []).foldl
            (Trail.step (!p.root.isEmpty)) {}).width =
          0 :=
      Trail.width_of_names_nil (Trail.names_foldl_nil _ _ _)
    have further :=
      Trail.width_foldl (!p.root.isEmpty)
        ((List.replicate p.root.length []).foldl
            (Trail.step (!p.root.isEmpty)) {}) q.parts
    rw [← List.foldl_append, ← parts_slashes_append (root_slashes p),
      ← split, start, Nat.zero_add]
      at further
    exact further
  have whole : normalize p = p.trail.render p.root := by
    rw [normalize, if_neg (by simpa using nonempty)]
    rfl
  have something := List.length_pos_iff.mpr nonempty
  rw [whole, Trail.render_eq]
  split
  · exact something
  · rename_i notBoth
    rw [List.length_append]
    by_cases nothing : p.trail.names = []
    · rw [Trail.body_of_names_nil nothing, List.length_nil]
      omega
    · have body := Trail.length_body nothing
      have rest := length_succ q
      omega

theorem nul_not_mem_render {root : Path}
    (slashes : ∀ b ∈ root, b = ('/' : Byte)) {t : Trail}
    (plain : ∀ name ∈ t.names, (0 : Byte) ∉ name) :
    (0 : Byte) ∉ t.render root := by
  have joined : (0 : Byte) ∉ Text.join "/" t.names.reverse := by
    rw [Text.nul_mem_join_iff]
    rintro ⟨name, inside, nul⟩
    exact plain name (List.mem_reverse.mp inside) nul
  rw [Trail.render_eq]
  split
  · decide
  · intro nul
    rcases List.mem_append.mp nul with front | back
    · exact absurd (slashes 0 front) (by decide)
    · unfold Trail.body at back
      rcases List.mem_append.mp back with inNames | inSlash
      · exact joined inNames
      · split at inSlash
        · exact absurd inSlash (by decide)
        · cases inSlash

end Path

/-! ## Following trails -/

namespace FileSystem

open MirrorAdapter.Path (Trail LeadsFrom)

variable {fs : FileSystem} {route target start here there : Route}

theorem follow_append_iff {parts more : List Text} :
    fs.follow route (parts ++ more) = .ok target ↔
      ∃ middle, fs.follow route parts = .ok middle ∧
        fs.follow middle more = .ok target := by
  induction parts generalizing route with
  | nil => simp [follow]
  | cons part parts ih =>
    rw [List.cons_append, follow, follow]
    split
    · split
      · simp
      · exact ih
    · simp

theorem follow_singleton {part : Text} :
    fs.follow route [part] = .ok target ↔ fs.get? route = some .directory ∧
      part.length ≤ longestName ∧ target = step route part := by
  simp [follow_eq_ok_iff, passed]

/-- The names of a trail lead from the start to a route, to a directory if a
slash may follow them. -/
structure Tracks (fs : FileSystem) (start : Route) (t : Trail)
    (route : Route) : Prop where
  follows : fs.follow start t.names.reverse = .ok route
  directory : t.directory = true → fs.get? route = some .directory

/-- What a trail keeps of one more part leads to where the part leads. -/
theorem Tracks.step (tree : fs.IsTree) {t : Trail} (h : Tracks fs start t here)
    {climbs : Nat} {down : List Text} (leads : t.Leads climbs down)
    {rooted : Bool} (root : rooted = true → start = []) {part : Text}
    (next : fs.follow here [part] = .ok there) :
    Tracks fs start (Trail.step rooted t part) there := by
  obtain ⟨inDirectory, short, rfl⟩ := follow_singleton.mp next
  have pushed :
      fs.follow start (part :: t.names).reverse =
        .ok (FileSystem.step here part) := by
    rw [List.reverse_cons]
    exact follow_append_iff.mpr ⟨here, h.follows, next⟩
  by_cases stays : part = [] ∨ part = Text.ofString "."
  · have same : FileSystem.step here part = here := by
      rw [FileSystem.step, if_pos stays]
    rw [Trail.step, if_pos stays, same]
    exact ⟨h.follows, fun _ => inDirectory⟩
  by_cases parent : part = Path.up
  · subst parent
    have outside : FileSystem.step here Path.up = here.dropLast := rfl
    have above : fs.get? here.dropLast = some .directory :=
      tree.parent here (by simp [inDirectory])
    have follows := h.follows
    rw [Trail.step_up]
    cases names : t.names with
    | nil =>
      rw [names] at follows pushed
      obtain rfl : start = here := by simpa [follow] using follows
      cases rooted with
      | true =>
        obtain rfl := root rfl
        exact ⟨h.follows, fun _ => rfl⟩
      | false => exact ⟨pushed, by simp⟩
    | cons name outer =>
      rw [names] at follows pushed
      dsimp only
      split
      · rename_i climbed
        subst climbed
        exact ⟨pushed, by simp⟩
      · -- The last step down is taken back.
        rename_i other
        rw [List.reverse_cons] at follows
        obtain ⟨middle, before, last⟩ := follow_append_iff.mp follows
        obtain ⟨-, -, rfl⟩ := follow_singleton.mp last
        have entry : Path.IsEntryName name := by
          have inside : name ∈ down ++ List.replicate climbs Path.up := by
            rw [← leads.names, names]
            exact .head _
          rcases List.mem_append.mp inside with below | climb
          · exact leads.entries name below
          · exact absurd (List.eq_of_mem_replicate climb) other
        rw [step_down entry.nonempty entry.notDots, List.dropLast_concat]
          at above
        rw [outside, step_down entry.nonempty entry.notDots,
          List.dropLast_concat]
        exact ⟨before, fun _ => above⟩
  · rw [Trail.step, if_neg stays,
      if_neg (show ¬part = Text.ofString ".." from parent)]
    exact ⟨pushed, by simp⟩

theorem Tracks.foldl (tree : fs.IsTree) {t : Trail}
    (h : Tracks fs start t here) {climbs : Nat} {down : List Text}
    (leads : t.Leads climbs down) {rooted : Bool}
    (root : rooted = true → start = []) (below : rooted = true → climbs = 0)
    {parts : List Text} (noSlash : ∀ part ∈ parts, ('/' : Byte) ∉ part)
    (follows : fs.follow here parts = .ok there) :
    Tracks fs start (parts.foldl (Trail.step rooted) t) there := by
  induction parts generalizing t climbs down here with
  | nil =>
    obtain rfl : here = there := by simpa [follow] using follows
    exact h
  | cons part parts ih =>
    obtain ⟨one, others⟩ := List.forall_mem_cons.mp noSlash
    have split : fs.follow here ([part] ++ parts) = .ok there := follows
    obtain ⟨middle, first, rest⟩ := follow_append_iff.mp split
    obtain ⟨_, _, further, stillBelow⟩ := leads.step below one
    exact ih (h.step tree leads root first) further stillBelow others rest

/-- Where paths are followed from that have the given root. -/
def startBelow (fs : FileSystem) (root : Path) : Route :=
  if root = [] then fs.working else []

/-- A rendered trail leads to where its names lead. -/
theorem Tracks.follow_render (tree : fs.IsTree) {root : Path} {t : Trail}
    {climbs : Nat} {down : List Text} (begins : LeadsFrom root t climbs down)
    (h : Tracks fs (fs.startBelow root) t route) :
    fs.follow (fs.startBelow root) (Path.parts (t.render root)) =
      .ok route := by
  have follows := h.follows
  rw [Trail.render_eq]
  split
  · rename_i nothing
    rw [nothing.2] at follows
    obtain rfl : fs.startBelow root = route := by simpa [follow] using follows
    have working : fs.get? (fs.startBelow root) = some .directory := by
      rw [startBelow, if_pos nothing.1, tree.working]
    rw [show Path.parts (Text.ofString ".") = [Text.ofString "."] from rfl,
      follow_singleton]
    exact ⟨working, by decide, rfl⟩
  · rename_i something
    -- The slashes of a root stay at the root.
    have rooted :
        fs.follow (fs.startBelow root) (List.replicate root.length []) =
          .ok (fs.startBelow root) := by
      by_cases relative : root = []
      · simp [relative, follow]
      · rw [startBelow, if_neg relative]
        induction root.length with
        | zero => rfl
        | succ n ih =>
          simpa [List.replicate_succ, follow, FileSystem.step] using ih
    rw [Path.parts_slashes_append begins.slashes]
    refine follow_append_iff.mpr ⟨_, rooted, ?_⟩
    by_cases nothing : t.names = []
    · rw [nothing] at follows
      obtain rfl : fs.startBelow root = route := by
        simpa [follow] using follows
      have atRoot : fs.startBelow root = [] := by
        rw [startBelow, if_neg fun relative => something ⟨relative, nothing⟩]
      rw [Trail.body_of_names_nil nothing, atRoot]
      rfl
    · rw [begins.leads.parts_body nothing]
      refine follow_append_iff.mpr ⟨route, follows, ?_⟩
      split
      · rename_i slash
        rw [follow_singleton]
        exact ⟨h.directory (Bool.and_eq_true_iff.mp slash).1, by decide, rfl⟩
      · rfl

/-- A normal path leads to where its names lead, if it is short enough. -/
theorem Tracks.locate_render (tree : fs.IsTree) {root : Path} {t : Trail}
    {climbs : Nat} {down : List Text} (begins : LeadsFrom root t climbs down)
    (h : Tracks fs (fs.startBelow root) t route)
    (plain : (0 : Byte) ∉ t.render root)
    (short : (t.render root).length ≤ longestPath) :
    fs.locate (t.render root) = .ok route := by
  unfold locate
  rw [Text.beforeNul_eq_self plain]
  dsimp only
  rw [if_neg (begins.leads.render_ne_nil root),
    if_neg (Nat.not_lt.mpr short), begins.isAbsolute_render]
  have starts :
      (if (!root.isEmpty) = true then [] else fs.working) =
        fs.startBelow root := by
    cases root <;> rfl
  rw [starts]
  exact h.follow_render tree begins

/-! ## Paths and their normal forms -/

section
variable {p : Path}

theorem ne_nil_of_locate (located : fs.locate p = .ok route) : p ≠ [] := by
  rintro rfl
  cases located

theorem length_le_of_locate (plain : (0 : Byte) ∉ p)
    (located : fs.locate p = .ok route) : p.length ≤ longestPath := by
  have length := ((locate_eq_ok_iff fs).mp located).1.length
  rwa [Text.beforeNul_eq_self plain] at length

theorem locate_of_long (plain : (0 : Byte) ∉ p)
    (long : longestPath < p.length) : fs.locate p = .error .tooLong := by
  unfold locate
  rw [Text.beforeNul_eq_self plain]
  dsimp only
  rw [if_neg (List.ne_nil_of_length_pos (by omega)), if_pos long]

theorem tracks_of_locate (tree : fs.IsTree)
    (plain : (0 : Byte) ∉ p) (located : fs.locate p = .ok route) :
    Tracks fs (fs.startBelow p.root) p.trail route := by
  have empty : Tracks fs (fs.startBelow p.root) {} (fs.startBelow p.root) :=
    ⟨rfl, by simp⟩
  have begins :
      fs.startBelow p.root = if Path.isAbsolute p then [] else fs.working := by
    have rooted := Path.isEmpty_root p
    unfold startBelow
    cases absolute : Path.isAbsolute p <;> simp [absolute]
      at rooted <;> simp [rooted]
  have nonempty := ne_nil_of_locate located
  have follows : fs.follow (fs.startBelow p.root) p.parts = .ok route := by
    unfold locate at located
    rw [Text.beforeNul_eq_self plain] at located
    dsimp only at located
    rw [if_neg nonempty] at located
    split at located
    · cases located
    · rwa [begins]
  have root : (!p.root.isEmpty) = true → fs.startBelow p.root = [] := by
    intro rooted
    rw [startBelow, if_neg (by simpa using rooted)]
  exact empty.foldl tree Trail.leads_empty root (fun _ => rfl)
    (fun _ => Path.not_mem_of_mem_parts) follows

/-- The normal form of a path leads to the same place as the path. -/
theorem locate_normalize (tree : fs.IsTree)
    (plain : (0 : Byte) ∉ p) (located : fs.locate p = .ok route) :
    fs.locate (Path.normalize p) = .ok route := by
  have nonempty := ne_nil_of_locate located
  obtain ⟨down, begins⟩ := Path.leadsFrom_trail p
  have whole : Path.normalize p = p.trail.render p.root := by
    rw [Path.normalize, if_neg (by simpa using nonempty)]
    rfl
  have short : (Path.normalize p).length ≤ longestPath :=
    Nat.le_trans (Path.length_normalize_le p)
      (length_le_of_locate plain located)
  have plainNames : ∀ name ∈ p.trail.names, (0 : Byte) ∉ name := by
    intro name inside
    have part := Trail.names_foldl_subset _ _ _ inside
    rw [List.append_nil] at part
    exact Path.nul_not_mem_of_mem_parts plain part
  rw [whole] at short ⊢
  exact (tracks_of_locate tree plain located).locate_render tree begins
    (Path.nul_not_mem_render begins.slashes plainNames) short

/-! ## Entries below a directory -/

/-- In a tree the names on the way to an entry can be followed one by one. -/
theorem follow_down (tree : fs.IsTree) {names : List Text}
    (storable : ∀ name ∈ names, IsStorable name)
    (there : fs.get? (route ++ names) ≠ none) :
    fs.follow route names = .ok (route ++ names) := by
  induction names using List.reverseRecOn with
  | nil => simp [follow]
  | append_singleton names name ih =>
    obtain ⟨before, last⟩ := List.forall_mem_append.mp storable
    have entry := last name (.head _)
    have above : fs.get? (route ++ names) = some .directory := by
      have parent := tree.parent _ there
      rwa [← List.append_assoc, List.dropLast_concat] at parent
    refine follow_append_iff.mpr ⟨_, ih before (by simp [above]), ?_⟩
    rw [follow_singleton, step_down entry.entry.nonempty entry.entry.notDots]
    exact ⟨above, entry.short, (List.append_assoc _ _ _).symm⟩

/-- The path of an entry below a directory leads to the entry, unless it is
too long to be followed. -/
theorem locate_normalizeFrom (tree : fs.IsTree) (plain : (0 : Byte) ∉ p)
    (located : fs.locate p = .ok route) {names : List Text}
    (someNames : names ≠ []) (storable : ∀ name ∈ names, IsStorable name)
    (there : fs.get? (route ++ names) ≠ none) :
    fs.locate (Path.normalizeFrom p (Text.join "/" names)) =
      if (Path.normalizeFrom p (Text.join "/" names)).length ≤ longestPath then
        .ok (route ++ names)
      else .error .tooLong := by
  have nonempty := ne_nil_of_locate located
  obtain ⟨t, down, whole, begins, turned⟩ :=
    Path.exists_normalizeFrom nonempty someNames
      fun name inside => (storable name inside).entry
  have tracks := tracks_of_locate tree plain located
  have plainNames : ∀ name ∈ t.names, (0 : Byte) ∉ name := by
    intro name inside
    rw [turned.1, List.mem_append, List.mem_reverse] at inside
    rcases inside with below | above
    · exact (storable name below).plain
    · have part := Trail.names_foldl_subset _ _ _ above
      rw [List.append_nil] at part
      exact Path.nul_not_mem_of_mem_parts plain part
  have plainWhole :
      (0 : Byte) ∉ Path.normalizeFrom p (Text.join "/" names) := by
    rw [whole]
    exact Path.nul_not_mem_render begins.slashes plainNames
  split
  · rename_i short
    have further : Tracks fs (fs.startBelow p.root) t (route ++ names) := by
      constructor
      · rw [turned.1, List.reverse_append, List.reverse_reverse]
        exact follow_append_iff.mpr
          ⟨route, tracks.follows, follow_down tree storable there⟩
      · simp [turned.2]
    rw [whole] at short plainWhole ⊢
    exact further.locate_render tree begins plainWhole short
  · rename_i long
    exact locate_of_long plainWhole (Nat.not_le.mp long)

end

end FileSystem
end MirrorAdapter
