import MirrorAdapter.Compile
import MirrorAdapter.Proofs.Lexemes
import MirrorAdapter.Proofs.Recovery.Origin

/-!
# What declarations are made of

Reading invents nothing: the name of a mirror type and the components of its
scope are words of its file, and the arguments of its attributes are tokens of
it. So what holds of all words or all tokens of a file holds of those that a
declaration keeps.
-/
namespace MirrorAdapter
namespace Decl

namespace Parsed

variable {α β : Type}

/-- What a step yields has the property. -/
def Yields (p : Parsed α) (P : α → Prop) : Prop :=
  ∀ value, p.value = some value → P value

theorem yields_giveUp (rest : List Token) (report : Diagnostic)
    (P : α → Prop) : (giveUp rest report).Yields P := by
  intro value h
  cases h

theorem yields_done {value : α} {P : α → Prop} (h : P value)
    (rest : List Token) : (done value rest).Yields P := by
  intro found same
  cases same
  exact h

theorem Yields.andThen {p : Parsed α} {second : α → List Token → Parsed β}
    {P : α → Prop} {P' : β → Prop} (h : p.Yields P)
    (h' : ∀ value, P value → (second value p.rest).Yields P') :
    (p.andThen second).Yields P' := by
  obtain ⟨value, rest, log⟩ := p
  cases value with
  | none =>
    intro found same
    cases same
  | some value => exact h' value (h value rfl)

end Parsed

/-! ## Names -/

/-- The texts of all words among the tokens have the property. -/
def WordsAre (P : Text → Prop) (tokens : List Token) : Prop :=
  ∀ t ∈ tokens, t.kind = .identifier → P t.text

/-- The components of all open blocks have the property. -/
def ScopesAre (P : Text → Prop) (blocks : List Block) : Prop :=
  ∀ block ∈ blocks, ∀ c ∈ block.components, P c

section
variable {P : Text → Prop} {tokens rest : List Token}
    {blocks blocks' : List Block}

theorem WordsAre.of_suffix (h : WordsAre P tokens)
    (within : rest <:+ tokens) : WordsAre P rest :=
  fun t found => h t (within.subset found)

theorem ScopesAre.scopeOf (h : ScopesAre P blocks) :
    ∀ c ∈ scopeOf blocks, P c := by
  intro c found
  obtain ⟨block, open_block, inside⟩ := List.mem_flatMap.mp found
  exact h block (List.mem_reverse.mp open_block) c inside

theorem components_pathTail {components : List Text} (words : WordsAre P tokens)
    (h : pathTail tokens = (some components, rest)) :
    ∀ c ∈ components, P c := by
  fun_induction pathTail tokens generalizing components with
  | case1 =>
    simp only [Prod.mk.injEq, Option.some.injEq] at h
    obtain ⟨rfl, -⟩ := h
    simp
  | case2 => simp at h
  | case3 t colons u us name found after tail ih =>
    simp only [Prod.mk.injEq, Option.map_eq_some_iff] at h
    obtain ⟨⟨inner, rfl, rfl⟩, rfl⟩ := h
    have behind : WordsAre P us :=
      words.of_suffix ((List.suffix_cons _ _).trans (List.suffix_cons _ _))
    exact List.forall_mem_cons.mpr ⟨words u (by simp) name, ih behind tail⟩
  | case4 => simp at h
  | case5 =>
    simp only [Prod.mk.injEq, Option.some.injEq] at h
    obtain ⟨rfl, -⟩ := h
    simp

variable (stop : Token)

theorem yields_expect (words : WordsAre P tokens) (fault : Fault) :
    (expect stop .identifier fault tokens).Yields fun t => P t.text := by
  unfold expect
  split
  · exact Parsed.yields_giveUp _ _ _
  · rename_i t ts
    split
    · rename_i kind
      exact Parsed.yields_done (P := fun t : Token => P t.text)
        (words t (by simp) kind) _
    · exact Parsed.yields_giveUp _ _ _

theorem yields_readNamespace (words : WordsAre P tokens) :
    (readNamespace stop tokens).Yields
      fun components => ∀ c ∈ components, P c := by
  have behind :=
    words.of_suffix
      (within_expect stop .identifier .missingNamespaceName tokens)
  refine (yields_expect stop words _).andThen fun first name => ?_
  split
  · exact Parsed.yields_giveUp _ _ _
  · rename_i components rest tail
    have path := components_pathTail behind tail
    exact Parsed.Yields.andThen (P := fun _ => True) (fun _ _ => trivial)
      fun _ _ => Parsed.yields_done (List.forall_mem_cons.mpr ⟨name, path⟩) _

theorem scopesAre_readItem {t : Token} {ts : List Token}
    (words : WordsAre P (t :: ts)) (h : ScopesAre P blocks) :
    ScopesAre P (readItem stop blocks t ts).blocks := by
  obtain closes | hash | named | ends | other := item_cases t
  · rw [readItem_of_rbrace stop blocks ts closes]
    cases blocks with
    | nil => exact h
    | cons block outer => exact fun inner found => h inner (.tail _ found)
  · rwa [readItem_of_hash stop blocks ts hash]
  · have opening :=
      yields_readNamespace stop (words.of_suffix (List.suffix_cons t ts))
    rw [readItem_of_namespace stop blocks ts named]
    split <;> rename_i found
    · rw [found] at opening
      exact List.forall_mem_cons.mpr ⟨opening _ rfl, h⟩
    · exact h
  · rwa [readItem_of_semicolon stop blocks ts ends]
  · rwa [readItem_of_definition stop blocks ts other]

theorem Run.scopesAre {content : Content}
    (h : Run stop blocks tokens content blocks' rest)
    (words : WordsAre P tokens) (start : ScopesAre P blocks) :
    ScopesAre P blocks' := by
  induction h with
  | refl => exact start
  | @step blocks t ts _ _ _ _ ih =>
    have behind :=
      words.of_suffix ((readItem_suffix stop blocks ts (t := t)).trans
          (List.suffix_cons t ts))
    exact ih behind (scopesAre_readItem stop words start)

end

/-- The name of a mirror type and the components of its scope are words of the
file. -/
theorem names_of_mem_mirrors {P : Text → Prop} {path : Text}
    {tokens : List Token} {m : Mirror} (words : WordsAre P tokens)
    (h : m ∈ (readTokens path tokens).file.mirrors) :
    P m.name ∧ ∀ c ∈ m.scope, P c := by
  obtain ⟨content, blocks, left, run, found⟩ := exists_run_of_mem_mirrors h
  have before : WordsAre P (beforeEnd tokens) :=
    fun t inside => words t ((List.takeWhile_prefix _).subset inside)
  obtain ⟨-, front, name, l, members, r, semicolon, statements, whole, head,
        -, -, -, -, named, -, scope, -⟩ :=
    definition_of_readMirror _ found
  have kind : name.kind = .identifier := by
    cases head
    assumption
  have inside : name ∈ beforeEnd tokens := by
    refine run.suffix.subset ?_
    rw [whole]
    simp
  constructor
  · rw [named]
    exact before name inside kind
  · rw [scope]
    exact (run.scopesAre _ before (by simp [ScopesAre])).scopeOf

/-! ## Arguments of attributes -/

/-- All argument tokens of the attribute have the property. -/
def Attribute.Of (Q : Token → Prop) (a : Attribute) : Prop :=
  ∀ arguments ∈ a.arguments, ∀ t ∈ arguments, Q t

section
variable {Q : Token → Prop} {tokens rest : List Token} (stop : Token)

theorem forall_of_suffix (h : ∀ t ∈ tokens, Q t) (within : rest <:+ tokens) :
    ∀ t ∈ rest, Q t :=
  fun t found => h t (within.subset found)

theorem yields_readArguments (name : Text) (h : ∀ t ∈ tokens, Q t) :
    (readArguments stop name tokens).Yields
      fun a => ∀ arguments ∈ a, ∀ t ∈ arguments, Q t := by
  unfold readArguments
  split
  · exact Parsed.yields_done (by simp) _
  · rename_i t ts
    split
    · have inside : ∀ u ∈ (argumentTokens 0 ts).1, Q u := by
        intro u found
        refine h u (.tail _ ?_)
        rw [← argumentTokens_append 0 ts]
        exact List.mem_append_left _ found
      exact Parsed.Yields.andThen (P := fun _ => True) (fun _ _ => trivial)
        fun _ _ => Parsed.yields_done (by simpa using inside) _
    · exact Parsed.yields_done (by simp) _

theorem yields_readAttribute (h : ∀ t ∈ tokens, Q t) :
    (readAttribute stop tokens).Yields (Attribute.Of Q) := by
  have behind := forall_of_suffix h (within_readAttributeName stop tokens)
  refine Parsed.Yields.andThen (P := fun _ => True) (fun _ _ => trivial)
    fun (name, location) _ => ?_
  exact (yields_readArguments stop name behind).andThen
    fun arguments good => Parsed.yields_done good _

theorem forall_of_keepDirective {a : Attribute} (h : a.Of Q) :
    ∀ b ∈ (keepDirective a).1, b.Of Q := by
  unfold keepDirective
  split <;> simp [h]

theorem yields_readAttributeList (h : ∀ t ∈ tokens, Q t) :
    (readAttributeList stop tokens).Yields fun as => ∀ a ∈ as, a.Of Q := by
  fun_induction readAttributeList stop tokens with
  | case1 => exact Parsed.yields_done (by simp) _
  | case2 => intro _ found; cases found
  | case3 tokens _ a log found =>
    have good : a.Of Q := yields_readAttribute stop h a (by rw [found])
    exact fun _ same => Option.some.inj same ▸ forall_of_keepDirective good
  | case4 tokens _ a c rest log found comma _ tail ih =>
    have good : a.Of Q := yields_readAttribute stop h a (by rw [found])
    have within := within_readAttribute stop tokens
    rw [found] at within
    intro value same
    obtain ⟨others, later, rfl⟩ := Option.map_eq_some_iff.mp same
    have behind := forall_of_suffix h ((List.suffix_cons c rest).trans within)
    exact List.forall_mem_append.mpr
      ⟨forall_of_keepDirective good, ih behind others later⟩
  | case5 tokens _ a c rest log found comma =>
    have good : a.Of Q := yields_readAttribute stop h a (by rw [found])
    exact fun _ same => Option.some.inj same ▸ forall_of_keepDirective good

theorem yields_readGroup (h : ∀ t ∈ tokens, Q t) :
    (readGroup stop tokens).Yields fun as => ∀ a ∈ as, a.Of Q :=
  (yields_readAttributeList stop h).andThen fun _ good =>
    Parsed.Yields.andThen (P := fun _ => True) (fun _ _ => trivial)
      fun _ _ => Parsed.Yields.andThen (P := fun _ => True)
          (fun _ _ => trivial) fun _ _ => Parsed.yields_done good _

theorem yields_readAttributes (h : ∀ t ∈ tokens, Q t) :
    (readAttributes stop tokens).Yields fun as => ∀ a ∈ as, a.Of Q := by
  fun_induction readAttributes stop tokens with
  | case1 => intro _ found; cases found
  | case2 a b inside opens group rest log found _ tail ih =>
    have within := within_readGroup stop inside
    have behind : ∀ t ∈ inside, Q t :=
      fun t member => h t (.tail _ (.tail _ member))
    have good := yields_readGroup stop behind
    rw [found] at good within
    intro value same
    obtain ⟨others, later, rfl⟩ := Option.map_eq_some_iff.mp same
    exact List.forall_mem_append.mpr
      ⟨good group rfl, ih (forall_of_suffix behind within) others later⟩
  | case3 => exact Parsed.yields_done (by simp) _
  | case4 => exact Parsed.yields_done (by simp) _

theorem yields_readHead (h : ∀ t ∈ tokens, Q t) :
    (readHead stop tokens).Yields
      fun head => ∀ a ∈ head.attributes, a.Of Q := by
  unfold readHead
  have rest₁ := forall_of_suffix h (within_readAttributes stop tokens)
  refine (yields_readAttributes stop h).andThen fun leading first => ?_
  have rest₂ := forall_of_suffix rest₁ (within_readTemplate stop _)
  refine Parsed.Yields.andThen (P := fun _ => True) (fun _ _ => trivial)
    fun _ _ => ?_
  have rest₃ := forall_of_suffix rest₂ (within_readAttributes stop _)
  refine (yields_readAttributes stop rest₂).andThen fun middle second => ?_
  have rest₄ := forall_of_suffix rest₃ (within_readKeyword stop _)
  refine Parsed.Yields.andThen (P := fun _ => True) (fun _ _ => trivial)
    fun _ _ => ?_
  refine (yields_readAttributes stop rest₄).andThen fun trailing third => ?_
  refine Parsed.Yields.andThen (P := fun _ => True) (fun _ _ => trivial)
    fun _ _ => ?_
  refine Parsed.yields_done ?_ _
  simp only [List.forall_mem_append]
  exact ⟨⟨first, second⟩, third⟩

theorem attributes_of_readMirror {scope : List Text}
    {m : Mirror} (h : ∀ t ∈ tokens, Q t)
    (found : (readMirror stop scope tokens).mirror = some m) :
    ∀ a ∈ m.attributes, a.Of Q := by
  have head := yields_readHead stop h
  unfold readMirror at found
  split at found
  · cases found
  · rename_i read
    rw [read] at head
    simp only [readDefinition] at found
    split at found
    · cases found
    · split at found <;> try cases found
      simp only [finish] at found
      split at found
      · cases found
        exact head _ rfl
      · cases found

end

/-- The arguments of the attributes of a mirror type are tokens of the
file. -/
theorem attributes_of_mem_mirrors {Q : Token → Prop} {path : Text}
    {tokens : List Token} {m : Mirror} (h : ∀ t ∈ beforeEnd tokens, Q t)
    (found : m ∈ (readTokens path tokens).file.mirrors) :
    ∀ a ∈ m.attributes, a.Of Q := by
  obtain ⟨content, blocks, left, run, read⟩ := exists_run_of_mem_mirrors found
  exact attributes_of_readMirror _ (forall_of_suffix h run.suffix) read

end Decl

/-! ## Modules -/

open Decl (Module)
open Name (IsName)

/-- Mirror types and namespaces of a module have names. -/
def Decl.Module.Named (m : Module) : Prop :=
  ∀ declaration ∈ declarations m,
    IsName declaration.2.name ∧ ∀ c ∈ declaration.2.scope, IsName c

/-- What texts declare is read from one of them. -/
theorem exists_text_of_declared {files : List (Text × Text)}
    {file : Decl.File} {m : Decl.Mirror}
    (h : (file, m) ∈ declarations (Decl.readFiles files).1) :
    ∃ path text, (path, text) ∈ files ∧
      file = (Decl.readText path text).file ∧ m ∈ file.mirrors := by
  obtain ⟨f, read, inside⟩ := List.mem_flatMap.mp h
  obtain ⟨m', member, same⟩ := List.mem_map.mp inside
  obtain ⟨rfl, rfl⟩ := Prod.mk.inj same
  obtain ⟨reading, known, rfl⟩ := List.mem_map.mp read
  obtain ⟨⟨path, text⟩, given, rfl⟩ := List.mem_map.mp known
  exact ⟨path, text, given, rfl, member⟩

/-- What texts declare has names. -/
theorem named_readFiles (files : List (Text × Text)) :
    (Decl.readFiles files).1.Named := by
  intro declaration declared
  obtain ⟨path, text, -, file, member⟩ := exists_text_of_declared declared
  rw [file] at member
  exact Decl.names_of_mem_mirrors
    (fun t token kind => (Token.lexical_of_mem_scan token).isName kind) member

end MirrorAdapter
