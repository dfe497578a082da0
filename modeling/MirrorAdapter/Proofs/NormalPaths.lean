import MirrorAdapter.FileSystem.Lookup
import MirrorAdapter.Proofs.Paths

/-!
# Normal paths

A normal path climbs so many times to the parent of where it starts and goes
down by names from there. Made absolute, it lies as many names down from a
directory that only depends on where it starts. So paths that start alike
(`Anchored`) are equal if they are equal when made absolute, while a path that
is given as absolute, or that climbs further, can be a second spelling for the
same place.
-/
namespace MirrorAdapter
namespace Path

/-- A part of a path that names an entry of a directory. -/
structure IsEntryName (name : Text) : Prop where
  nonempty : name ≠ []
  noSlash : ('/' : Byte) ∉ name
  notDots : isDots name = false

instance (name : Text) : Decidable (IsEntryName name) :=
  decidable_of_iff (name ≠ [] ∧ ('/' : Byte) ∉ name ∧ isDots name = false)
    ⟨fun h => ⟨h.1, h.2.1, h.2.2⟩, fun h => ⟨h.nonempty, h.noSlash, h.notDots⟩⟩

/-- The part that leads to the parent. -/
def up : Text := Text.ofString ".."

theorem IsEntryName.ne_up {name : Text} (h : IsEntryName name) :
    name ≠ up := by
  rintro rfl
  exact absurd h.notDots (by decide)

theorem isEntryName_of_ne {part : Text} (nonempty : part ≠ [])
    (noSlash : ('/' : Byte) ∉ part) (notSelf : part ≠ Text.ofString ".")
    (notUp : part ≠ up) : IsEntryName part := by
  have notDots : isDots part = false := by
    rw [isDots, Bool.or_eq_false_iff, beq_eq_false_iff_ne, beq_eq_false_iff_ne]
    exact ⟨notSelf, notUp⟩
  exact ⟨nonempty, noSlash, notDots⟩

/-! ## Trails -/

namespace Trail

/-- The trail climbs so many times and then goes down by the names, which are
given innermost first. -/
structure Leads (t : Trail) (climbs : Nat) (down : List Text) : Prop where
  names : t.names = down ++ List.replicate climbs up
  entries : ∀ name ∈ down, IsEntryName name

theorem leads_of_names_nil {t : Trail} (nothing : t.names = []) :
    t.Leads 0 [] where
  names := nothing
  entries _ inside := absurd inside List.not_mem_nil

theorem leads_empty : ({} : Trail).Leads 0 [] := leads_of_names_nil rfl

theorem step_entry (rooted : Bool) (t : Trail)
    {name : Text} (entry : IsEntryName name) :
    step rooted t name = ⟨name :: t.names, false⟩ := by
  obtain ⟨nonempty, -, notDots⟩ := entry
  rw [isDots, Bool.or_eq_false_iff, beq_eq_false_iff_ne, beq_eq_false_iff_ne]
    at notDots
  rw [step, if_neg (by simp [nonempty, notDots.1]), if_neg notDots.2]

theorem step_up (rooted : Bool) (t : Trail) :
    step rooted t up =
      match t.names with
      | [] => if rooted then t else ⟨[up], false⟩
      | name :: outer =>
        if name = up then ⟨up :: name :: outer, false⟩ else ⟨outer, true⟩ := by
  unfold step
  exact (if_neg (by decide)).trans (if_pos rfl)

theorem step_nil (rooted : Bool) (t : Trail) :
    step rooted t [] = { t with directory := true } := by
  rw [step, if_pos (.inl rfl)]

/-- Slashes lead nowhere. -/
theorem names_foldl_nil (rooted : Bool) (t : Trail) (n : Nat) :
    ((List.replicate n []).foldl (step rooted) t).names = t.names := by
  induction n generalizing t with
  | zero => rfl
  | succ n ih => rw [List.replicate_succ, List.foldl_cons, ih, step_nil]

variable {t : Trail} {climbs : Nat} {down : List Text}

theorem Leads.count_up (h : t.Leads climbs down) :
    t.names.count up = climbs := by
  have others : up ∉ down := fun inside => (h.entries up inside).ne_up rfl
  rw [h.names, List.count_append, List.count_replicate_self,
    List.count_eq_zero_of_not_mem others, Nat.zero_add]

/-- A part is added to a trail as one more climb, one name more or less, or
nothing. Below a root there are no climbs. -/
theorem Leads.step (h : t.Leads climbs down) {rooted : Bool}
    (below : rooted = true → climbs = 0) {part : Text}
    (noSlash : ('/' : Byte) ∉ part) :
    ∃ climbs' down', (Trail.step rooted t part).Leads climbs' down' ∧
      (rooted = true → climbs' = 0) := by
  by_cases stays : part = [] ∨ part = Text.ofString "."
  · exact ⟨climbs, down,
      ⟨by rw [Trail.step, if_pos stays]; exact h.names, h.entries⟩, below⟩
  obtain ⟨nonempty, notSelf⟩ := not_or.mp stays
  by_cases parent : part = up
  · subst parent
    rw [step_up]
    cases down with
    | cons name down =>
      obtain ⟨entry, others⟩ := List.forall_mem_cons.mp h.entries
      rw [h.names]
      exact ⟨climbs, down, ⟨by simp [entry.ne_up], others⟩, below⟩
    | nil =>
      rw [h.names]
      cases climbs with
      | zero => cases rooted with
        | true => exact ⟨0, [], ⟨h.names, h.entries⟩, below⟩
        | false => exact ⟨1, [], ⟨rfl, h.entries⟩, by simp⟩
      | succ climbs =>
        exact ⟨climbs + 2, [], ⟨by simp [List.replicate_succ], h.entries⟩,
          by simpa using below⟩
  · have entry := isEntryName_of_ne nonempty noSlash notSelf parent
    refine ⟨climbs, part :: down,
      ⟨by rw [step_entry rooted t entry, h.names]; rfl, ?_⟩, below⟩
    exact List.forall_mem_cons.mpr ⟨entry, h.entries⟩

/-- Below a root a trail climbs nowhere. -/
theorem Leads.foldl (h : t.Leads climbs down) {rooted : Bool}
    (below : rooted = true → climbs = 0) {parts : List Text}
    (noSlash : ∀ part ∈ parts, ('/' : Byte) ∉ part) :
    ∃ climbs' down', (parts.foldl (Trail.step rooted) t).Leads climbs' down' ∧
      (rooted = true → climbs' = 0) := by
  induction parts generalizing t climbs down with
  | nil => exact ⟨climbs, down, h, below⟩
  | cons part parts ih =>
    obtain ⟨here, others⟩ := List.forall_mem_cons.mp noSlash
    obtain ⟨_, _, next, below⟩ := h.step below here
    exact ih next below others

/-- Going down takes one name after the other. -/
theorem foldl_down (rooted : Bool) (t : Trail)
    (entries : ∀ name ∈ down, IsEntryName name) :
    (down.reverse.foldl (step rooted) t).names = down ++ t.names ∧
    (down ≠ [] → (down.reverse.foldl (step rooted) t).directory = false) := by
  induction down with
  | nil => exact ⟨rfl, fun nothing => absurd rfl nothing⟩
  | cons name down ih =>
    obtain ⟨entry, others⟩ := List.forall_mem_cons.mp entries
    rw [List.reverse_cons, List.foldl_append, List.foldl_cons,
      List.foldl_nil, step_entry rooted _ entry, (ih others).1]
    exact ⟨rfl, fun _ => rfl⟩

/-- Below a root, climbing takes names away, as long as there are any. -/
theorem foldl_up (h : t.Leads 0 down) (climbs : Nat) :
    ((List.replicate climbs up).foldl (step true) t).names =
      down.drop climbs := by
  induction climbs generalizing t down with
  | zero => simpa using h.names
  | succ climbs ih =>
    have names := h.names
    rw [List.replicate_zero, List.append_nil] at names
    rw [List.replicate_succ, List.foldl_cons, step_up, names]
    cases down with
    | nil => simpa using ih h
    | cons name down =>
      obtain ⟨entry, others⟩ := List.forall_mem_cons.mp h.entries
      have outer :
          ({ names := down, directory := true } : Trail).Leads 0 down :=
        ⟨by simp, others⟩
      simpa [entry.ne_up] using ih outer

/-! ## Rendered trails -/

/-- What is rendered below the root. -/
def body (t : Trail) : Path :=
  let slash : Text := if t.directory && t.endsWithName then "/" else []
  Text.join "/" t.names.reverse ++ slash

theorem render_eq (root : Path) (t : Trail) :
    t.render root = if root = [] ∧ t.names = [] then Text.ofString "."
      else root ++ t.body := by
  simp only [render, body, Bool.and_eq_true, List.isEmpty_iff,
    List.append_assoc]

/-- A final slash is rendered behind a name, and not behind climbs. -/
theorem Leads.endsWithName (h : t.Leads climbs down) :
    t.endsWithName = !down.isEmpty := by
  unfold Trail.endsWithName
  rw [h.names]
  cases down with
  | nil => cases climbs <;> rfl
  | cons name down => simpa [up] using (h.entries name (.head _)).ne_up

theorem Leads.noSlash (h : t.Leads climbs down) :
    ∀ part ∈ t.names, ('/' : Byte) ∉ part := by
  intro part inside
  rw [h.names, List.mem_append] at inside
  rcases inside with entry | climb
  · exact (h.entries part entry).noSlash
  · rw [List.eq_of_mem_replicate climb]
    decide

theorem Leads.ne_nil (h : t.Leads climbs down) :
    ∀ part ∈ t.names, part ≠ [] := by
  intro part inside
  rw [h.names, List.mem_append] at inside
  rcases inside with entry | climb
  · exact (h.entries part entry).nonempty
  · rw [List.eq_of_mem_replicate climb]
    decide

theorem parts_join {names : List Text} (nonempty : names ≠ [])
    (noSlash : ∀ part ∈ names, ('/' : Byte) ∉ part) :
    parts (Text.join "/" names) = names := by
  induction names with
  | nil => exact absurd rfl nonempty
  | cons name names ih =>
    obtain ⟨here, others⟩ := List.forall_mem_cons.mp noSlash
    cases names with
    | nil => exact parts_of_not_mem here
    | cons other names =>
      have joined : Text.join "/" (name :: other :: names) =
          name ++ ('/' : Byte) :: Text.join "/" (other :: names) := by
        simp [Text.join, Text.ofString]
      rw [joined, parts_append_slash, parts_of_not_mem here,
        ih (List.cons_ne_nil _ _) others]
      rfl

theorem Leads.parts_body (h : t.Leads climbs down) (nonempty : t.names ≠ []) :
    parts t.body = t.names.reverse ++
        if t.directory && t.endsWithName then [[]] else [] := by
  have names : parts (Text.join "/" t.names.reverse) = t.names.reverse :=
    parts_join (by simpa using nonempty)
      fun part inside => h.noSlash part (List.mem_reverse.mp inside)
  unfold body
  by_cases slash : (t.directory && t.endsWithName) = true
  · simp only [if_pos slash]
    exact (parts_append_slash _ []).trans (by rw [names]; rfl)
  · simp only [if_neg slash, List.append_nil, names]

theorem body_of_names_nil (nothing : t.names = []) : t.body = [] := by
  simp [body, nothing, endsWithName, Text.join]

/-- A rendered trail leads from a trail below a root to where its climbs leave
off and its names lead. -/
theorem Leads.foldl_body (h : t.Leads climbs down) {start : Trail}
    {working : List Text} (begins : start.Leads 0 working) :
    ((parts t.body).foldl (Trail.step true) start).Leads 0
      (down ++ working.drop climbs) ∧
    (down ≠ [] → ((parts t.body).foldl (Trail.step true) start).directory =
        t.directory) := by
  have entries : ∀ name ∈ down ++ working.drop climbs, IsEntryName name :=
    List.forall_mem_append.mpr ⟨h.entries,
      fun name inside => begins.entries name (List.mem_of_mem_drop inside)⟩
  suffices same :
      ((parts t.body).foldl (Trail.step true) start).names =
        down ++ working.drop climbs ∧
      (down ≠ [] → ((parts t.body).foldl (Trail.step true) start).directory =
          t.directory) from
    ⟨⟨by simpa using same.1, entries⟩, same.2⟩
  by_cases nothing : t.names = []
  · have names := h.names
    rw [nothing] at names
    obtain ⟨rfl, noneUp⟩ := List.append_eq_nil_iff.mp names.symm
    obtain rfl : climbs = 0 := by simpa using noneUp
    rw [body_of_names_nil nothing]
    simp [parts, step_nil, begins.names]
  · have climbed := foldl_up begins climbs
    obtain ⟨names, ends⟩ :=
      foldl_down true
        ((List.replicate climbs up).foldl (Trail.step true) start) h.entries
    have slash : down ≠ [] → (t.directory && t.endsWithName) = t.directory := by
      intro named
      simp [h.endsWithName, named]
    rw [h.parts_body nothing, h.names, List.reverse_append,
      List.reverse_replicate, List.append_assoc, List.foldl_append,
      List.foldl_append]
    split
    · rename_i directory
      rw [List.foldl_cons, List.foldl_nil, step_nil]
      exact ⟨by rw [names, climbed],
        fun named => (directory.symm.trans (slash named))⟩
    · rename_i directory
      refine ⟨by rw [List.foldl_nil, names, climbed], fun named => ?_⟩
      rw [List.foldl_nil, ends named, ← slash named]
      simpa using directory

/-- Below a root the names can be read off, and whether a slash follows
them. -/
theorem Leads.eq_of_body_eq (h : t.Leads 0 down) {t' : Trail}
    {down' : List Text} (h' : t'.Leads 0 down') (same : t.body = t'.body) :
    down = down' ∧ (down ≠ [] → t.directory = t'.directory) := by
  obtain ⟨names, directory⟩ := h.foldl_body leads_empty
  obtain ⟨names', directory'⟩ := h'.foldl_body leads_empty
  rw [← same] at names' directory'
  have equal : down = down' := by
    have read := names.names.symm.trans names'.names
    simpa using read
  exact ⟨equal,
    fun named => (directory named).symm.trans (directory' (equal ▸ named))⟩

theorem Leads.render_congr (h : t.Leads climbs down)
    {t' : Trail} (h' : t'.Leads climbs down)
    (directory : down ≠ [] → t.directory = t'.directory) (root : Path) :
    t.render root = t'.render root := by
  have names : t.names = t'.names := h.names.trans h'.names.symm
  have slash :
      (t.directory && t.endsWithName) = (t'.directory && t'.endsWithName) := by
    rw [h.endsWithName, h'.endsWithName]
    cases down with
    | nil => simp
    | cons name down => rw [directory (List.cons_ne_nil _ _)]
  simp only [render, names, slash]

/-- What is rendered starts with no slash. -/
theorem Leads.exists_body_eq (h : t.Leads climbs down)
    (nonempty : t.names ≠ []) :
    ∃ (b : Byte) (rest : Path), b ≠ '/' ∧ t.body = b :: rest := by
  obtain ⟨first, more, split⟩ :=
    List.exists_cons_of_ne_nil (mt List.reverse_eq_nil_iff.mp nonempty)
  have inside : first ∈ t.names := by
    rw [← List.mem_reverse, split]
    exact .head _
  obtain ⟨b, rest, rfl⟩ := List.exists_cons_of_ne_nil (h.ne_nil first inside)
  have noSlash : b ≠ '/' := fun slash => h.noSlash _ inside (slash ▸ .head _)
  refine ⟨b, t.body.tail, noSlash, ?_⟩
  simp only [body, split]
  cases more <;> rfl

theorem Leads.takeWhile_body (h : t.Leads climbs down) :
    t.body.takeWhile (· == ('/' : Byte)) = [] := by
  by_cases nothing : t.names = []
  · rw [body_of_names_nil nothing]
    rfl
  · obtain ⟨b, rest, other, starts⟩ := h.exists_body_eq nothing
    rw [starts, List.takeWhile_cons_of_neg (by simpa using other)]

theorem Leads.render_ne_nil (h : t.Leads climbs down) (root : Path) :
    t.render root ≠ [] := by
  rw [render_eq]
  split
  · decide
  · rename_i something
    intro nothing
    obtain ⟨noRoot, noBody⟩ := List.append_eq_nil_iff.mp nothing
    obtain ⟨b, rest, -, starts⟩ :=
      h.exists_body_eq fun noNames => something ⟨noRoot, noNames⟩
    rw [starts] at noBody
    cases noBody

/-- The climbs can be read off a path without a root. -/
theorem Leads.count_render (h : t.Leads climbs down) :
    (parts (t.render [])).count up = climbs := by
  rw [render_eq]
  split
  · rename_i nothing
    rw [← h.count_up, nothing.2]
    decide
  · rename_i something
    have nonempty : t.names ≠ [] := fun nothing => something ⟨rfl, nothing⟩
    rw [List.nil_append, h.parts_body nonempty, List.count_append,
      List.count_reverse, h.count_up]
    split <;> rfl

/-- A path without a root leads on from a trail below a root. -/
theorem Leads.foldl_render (h : t.Leads climbs down) {start : Trail}
    {working : List Text} (begins : start.Leads 0 working) :
    ((parts (t.render [])).foldl (Trail.step true) start).Leads 0
      (down ++ working.drop climbs) ∧
    (down ≠ [] →
      ((parts (t.render [])).foldl (Trail.step true) start).directory =
        t.directory) := by
  rw [render_eq]
  split
  · rename_i nothing
    have same := h.foldl_body begins
    rw [body_of_names_nil nothing.2] at same
    exact same
  · exact h.foldl_body begins

end Trail

/-! ## Anchors -/

/-- The trail of a path from its root on. -/
def trail (p : Path) : Trail :=
  (parts p).foldl (Trail.step (!p.root.isEmpty)) {}

/-- How many times the normal form of a path climbs at its start. -/
def climbs (p : Path) : Nat := p.trail.names.count up

/-- A trail from a root, below which it does not climb, or from the working
directory. -/
structure LeadsFrom (root : Path) (t : Trail) (climbs : Nat)
    (down : List Text) : Prop where
  leads : t.Leads climbs down
  slashes : ∀ b ∈ root, b = ('/' : Byte)
  below : root ≠ [] → climbs = 0

/-- The normal paths below a root that climb so many times at their start. -/
inductive Anchored (root : Path) (climbs : Nat) : Path → Prop
  | mk {t : Trail} {down : List Text} :
      LeadsFrom root t climbs down → Anchored root climbs (t.render root)

theorem LeadsFrom.takeWhile_render {root : Path} {t : Trail}
    {climbs : Nat} {down : List Text} (h : LeadsFrom root t climbs down) :
    (t.render root).takeWhile (· == ('/' : Byte)) = root := by
  rw [Trail.render_eq]
  split
  · rename_i nothing
    rw [nothing.1]
    rfl
  · rw [List.takeWhile_append_of_pos (by simpa using h.slashes),
      h.leads.takeWhile_body, List.append_nil]

/-- A normal path tells where it starts. -/
theorem Anchored.unique {root root' p : Path} {k k' : Nat}
    (h : Anchored root k p) (h' : Anchored root' k' p) :
    root = root' ∧ k = k' := by
  generalize same : p = q at h'
  cases h with
  | @mk t down fromRoot =>
  cases h' with
  | @mk t' down' fromRoot' =>
    have roots := congrArg (List.takeWhile (· == ('/' : Byte))) same
    rw [fromRoot.takeWhile_render, fromRoot'.takeWhile_render] at roots
    subst roots
    refine ⟨rfl, ?_⟩
    by_cases relative : root = []
    · subst relative
      rw [← fromRoot.leads.count_render, ← fromRoot'.leads.count_render, same]
    · rw [fromRoot.below relative, fromRoot'.below relative]

theorem root_slashes (p : Path) : ∀ b ∈ p.root, b = ('/' : Byte) := by
  unfold root
  split
  · rename_i nameless
    simpa [isNameless] using nameless
  split
  · simp [Text.ofString]
  · simp

/-- An absolute path starts with slashes. -/
theorem isAbsolute_eq (p : Path) :
    isAbsolute p = !(p.takeWhile (· == ('/' : Byte))).isEmpty := by
  cases p with
  | nil => rfl
  | cons b rest =>
    by_cases slash : b = '/'
    · simp [isAbsolute, slash]
    · simp [isAbsolute, slash]

theorem isEmpty_root (p : Path) : p.root.isEmpty = !isAbsolute p := by
  cases p with
  | nil => rfl
  | cons b rest =>
    by_cases slash : b = '/'
    · subst slash
      unfold root
      split <;> rfl
    · simp [root, isNameless, isAbsolute, slash]

theorem normalize_of_isAbsolute {p : Path} (absolute : isAbsolute p = true) :
    normalize p = ((parts p).foldl (Trail.step true) {}).render p.root := by
  have nonempty : p.isEmpty = false := by
    cases p with
    | nil => cases absolute
    | cons => rfl
  rw [normalize, nonempty, if_neg (by simp), normalizeBelow, isEmpty_root,
    absolute]
  rfl

theorem parts_slashes_append {root : Path}
    (slashes : ∀ b ∈ root, b = ('/' : Byte)) (p : Path) :
    parts (root ++ p) = List.replicate root.length [] ++ parts p := by
  induction root with
  | nil => rfl
  | cons b root ih =>
    obtain ⟨rfl, others⟩ := List.forall_mem_cons.mp slashes
    simp [parts, ih others, List.replicate_succ]

theorem isAbsolute_join {base : Path} (absolute : isAbsolute base = true)
    (p : Path) : isAbsolute (join base p) = true := by
  unfold join
  split
  · rename_i either
    cases base with
    | nil => cases absolute
    | cons => simpa using either
  · cases base with
    | nil => cases absolute
    | cons =>
      split <;> exact absolute

/-- A normal path is absolute if it starts from a root. -/
theorem LeadsFrom.isAbsolute_render {root : Path} {t : Trail}
    {climbs : Nat} {down : List Text} (h : LeadsFrom root t climbs down) :
    isAbsolute (t.render root) = !root.isEmpty := by
  rw [isAbsolute_eq, h.takeWhile_render]

/-- Made absolute, a normal path stays below its root or, where it has none,
leads on from the directory that its climbs lead to. -/
theorem exists_resolved {base : Path} (absolute : isAbsolute base = true) :
    ∃ working : List Text,
      ∀ {root : Path} {t : Trail} {k : Nat} {down : List Text},
        LeadsFrom root t k down → ∃ (root' : Path) (t' : Trail),
          resolved base (t.render root) = t'.render root' ∧ root' ≠ [] ∧
          LeadsFrom root' t' 0
            (down ++ if root = [] then working.drop k else []) ∧
          (down ≠ [] → t'.directory = t.directory) := by
  have nonempty : base ≠ [] := by
    rintro rfl
    cases absolute
  obtain ⟨trunk, -, joined⟩ := exists_join_eq nonempty
  obtain ⟨working, begins⟩ :
      ∃ working,
        ((parts trunk).foldl (Trail.step true) {}).Leads 0 working := by
    obtain ⟨_, working, begins, below⟩ :=
      Trail.leads_empty.foldl (fun _ => rfl) fun _ => not_mem_of_mem_parts
    obtain rfl := below rfl
    exact ⟨working, begins⟩
  refine ⟨working, ?_⟩
  intro root t k down fromRoot
  have isAbsolute_render := fromRoot.isAbsolute_render
  have somePath : (t.render root).isEmpty = false := by
    simpa using fromRoot.leads.render_ne_nil root
  have rooted {p : Path} (absolute : isAbsolute p = true) : p.root ≠ [] := by
    have := isEmpty_root p
    simpa [absolute] using this
  by_cases relative : root = []
  · subst relative
    have whole :
        resolved base (t.render []) = normalize (join base (t.render [])) := by
      simp [resolved, Path.absolute, somePath]
    have joins := isAbsolute_join absolute (t.render [])
    have further := fromRoot.leads.foldl_render begins
    rw [← List.foldl_append, ← parts_append_slash, ← joined _ isAbsolute_render]
      at further
    obtain ⟨leads, directory⟩ := further
    exact ⟨_, _, whole.trans (normalize_of_isAbsolute joins), rooted joins,
      ⟨leads, root_slashes _, fun _ => rfl⟩, directory⟩
  · have here : isAbsolute (t.render root) = true := by
      rw [isAbsolute_render]
      simpa using relative
    have whole : resolved base (t.render root) = normalize (t.render root) := by
      simp [resolved, Path.absolute, somePath, join, here]
    have begins :
        ((List.replicate root.length []).foldl (Trail.step true) {}).Leads 0
          [] :=
      Trail.leads_of_names_nil (Trail.names_foldl_nil true {} _)
    have further := fromRoot.leads.foldl_body begins
    have written : t.render root = root ++ t.body := by
      simp [Trail.render_eq, relative]
    rw [← List.foldl_append, ← parts_slashes_append fromRoot.slashes,
      ← written, List.drop_nil]
      at further
    obtain ⟨leads, directory⟩ := further
    rw [if_neg relative]
    exact ⟨_, _, whole.trans (normalize_of_isAbsolute here), rooted here,
      ⟨leads, root_slashes _, fun _ => rfl⟩, directory⟩

theorem Anchored.eq_of_resolved_eq {base : Path}
    (absolute : isAbsolute base = true) {root p q : Path} {k : Nat}
    (h : Anchored root k p) (h' : Anchored root k q)
    (same : resolved base p = resolved base q) : p = q := by
  obtain ⟨working, leads⟩ := exists_resolved absolute
  cases h with
  | @mk t down here =>
  cases h' with
  | @mk t' down' here' =>
    obtain ⟨r, T, resolves, nonempty, below, directory⟩ := leads here
    obtain ⟨r', T', resolves', -, below', directory'⟩ := leads here'
    rw [resolves, resolves'] at same
    have roots := congrArg (List.takeWhile (· == ('/' : Byte))) same
    rw [below.takeWhile_render, below'.takeWhile_render] at roots
    subst roots
    have bodies : T.body = T'.body := by
      simpa [Trail.render_eq, nonempty] using same
    obtain ⟨equal, ends⟩ := below.leads.eq_of_body_eq below'.leads bodies
    obtain rfl := List.append_cancel_right equal
    apply here.leads.render_congr here'.leads
    intro named
    rw [← directory named, ← directory' named]
    exact ends (by simp [named])

/-! ## Where paths that are found start -/

theorem leadsFrom_trail (p : Path) :
    ∃ down, LeadsFrom p.root p.trail p.climbs down := by
  obtain ⟨k, down, leads, below⟩ :
      ∃ k down, p.trail.Leads k down ∧ ((!p.root.isEmpty) = true → k = 0) :=
    Trail.leads_empty.foldl (fun _ => rfl) fun _ => not_mem_of_mem_parts
  have same : p.climbs = k := leads.count_up
  rw [same]
  exact ⟨down, leads, root_slashes p,
    fun rooted => below (by simpa using rooted)⟩

theorem anchored_normalize {p : Path} (nonempty : p ≠ []) :
    Anchored p.root p.climbs (normalize p) := by
  obtain ⟨down, fromRoot⟩ := leadsFrom_trail p
  have whole : normalize p = p.trail.render p.root := by
    rw [normalize, if_neg (by simpa using nonempty)]
    rfl
  rw [whole]
  exact .mk fromRoot

/-- A path below a directory leads on from where the directory leads to. -/
theorem exists_foldl_join (rooted : Bool) {base : Path}
    (nonempty : base ≠ []) {p : Path} (relative : isAbsolute p = false) :
    ∃ start : Trail,
      start.names = ((parts base).foldl (Trail.step rooted) {}).names ∧
      (parts (join base p)).foldl (Trail.step rooted) {} =
        (parts p).foldl (Trail.step rooted) start := by
  by_cases slash : base.getLast? = some ('/' : Byte)
  · obtain ⟨trunk, rfl⟩ := List.getLast?_eq_some_iff.mp slash
    refine ⟨(parts trunk).foldl (Trail.step rooted) {}, ?_, ?_⟩
    · rw [parts_append_slash, List.foldl_append]
      show _ = (Trail.step rooted _ []).names
      rw [Trail.step_nil]
    · rw [join, relative, if_neg (by simp), if_pos (by simp), List.append_assoc]
      show (parts (trunk ++ ('/' : Byte) :: p)).foldl _ _ = _
      rw [parts_append_slash, List.foldl_append]
  · refine ⟨(parts base).foldl (Trail.step rooted) {}, rfl, ?_⟩
    rw [join, relative, if_neg (by simpa using nonempty),
      if_neg (by simpa using slash), List.append_assoc]
    show (parts (base ++ ('/' : Byte) :: p)).foldl _ _ = _
    rw [parts_append_slash, List.foldl_append]

/-- The normal form of a path below a directory goes on from that of the
directory by its names. -/
theorem exists_normalizeFrom {base : Path} (nonempty : base ≠ [])
    {names : List Text} (someNames : names ≠ [])
    (entries : ∀ name ∈ names, IsEntryName name) :
    ∃ (t : Trail) (down : List Text),
      normalizeFrom base (Text.join "/" names) = t.render base.root ∧
      LeadsFrom base.root t base.climbs down ∧
      t.names = names.reverse ++ base.trail.names ∧ t.directory = false := by
  have inside : ∀ name ∈ names.reverse, IsEntryName name :=
    fun name there => entries name (List.mem_reverse.mp there)
  have relative : isAbsolute (Text.join "/" names) = false := by
    have leads :
        ({ names := names.reverse } : Trail).Leads 0 names.reverse :=
      ⟨by simp, inside⟩
    have body :
        ({ names := names.reverse } : Trail).body = Text.join "/" names := by
      simp [Trail.body]
    rw [isAbsolute_eq, ← body, leads.takeWhile_body]
    rfl
  obtain ⟨down, leads, slashes, below⟩ := leadsFrom_trail base
  obtain ⟨start, same, joins⟩ :=
    exists_foldl_join (!base.root.isEmpty) nonempty relative
  have listed : parts (Text.join "/" names) = names.reverse.reverse := by
    rw [List.reverse_reverse]
    exact Trail.parts_join someNames
      fun name there => (entries name there).noSlash
  obtain ⟨found, ends⟩ := Trail.foldl_down (!base.root.isEmpty) start inside
  rw [same] at found
  have whole :
      normalizeFrom base (Text.join "/" names) =
        (names.reverse.reverse.foldl (Trail.step (!base.root.isEmpty))
            start).render base.root := by
    rw [normalizeFrom, relative, if_neg (by simpa using nonempty),
      normalizeBelow, joins, listed]
  refine ⟨_, names.reverse ++ down, whole, ⟨⟨?_, ?_⟩, slashes, below⟩,
    found, ends (by simpa using someNames)⟩
  · rw [found, List.append_assoc, ← leads.names]
    rfl
  · exact List.forall_mem_append.mpr ⟨inside, leads.entries⟩

/-- What is found below a directory starts where the directory does. -/
theorem anchored_normalizeFrom {base : Path} (nonempty : base ≠ [])
    {names : List Text} (someNames : names ≠ [])
    (entries : ∀ name ∈ names, IsEntryName name) :
    Anchored base.root base.climbs
      (normalizeFrom base (Text.join "/" names)) := by
  obtain ⟨t, down, whole, begins, -⟩ :=
    exists_normalizeFrom nonempty someNames entries
  rw [whole]
  exact .mk begins

end Path
end MirrorAdapter
