import MirrorAdapter.Proofs.Cursor.Steps

/-!
# Include lines and names of namespaces by position
-/
namespace MirrorAdapter
namespace Decl
namespace Cursor

variable {tokens rest : List Token}

/-! ## Include lines -/

/-- The tokens between angle brackets on the line. -/
def inTarget (line : UInt32) (t : Token) : Bool :=
  t.line == line && t.kind != .greater

theorem run_bracketed {line : UInt32} {n : Nat} (h : Stands tokens rest)
    (enough : rest.length < n) (taken : Text) (content : Content) :
    (bracketed tokens line n taken).run (before tokens rest content) =
      some (taken ++ (rest.takeWhile (inTarget line)).flatMap Token.text,
        before tokens (rest.dropWhile (inTarget line)) content) := by
  induction rest generalizing n taken with
    obtain ⟨n, rfl, later⟩ := exists_round enough
  | nil => simp [bracketed, h]
  | cons t ts ih =>
    by_cases inside : t.line = line ∧ t.kind ≠ .greater
    · have goesOn : inTarget line t = true := by simpa [inTarget] using inside
      simp [bracketed, h, inside, goesOn, ih h.tail later]
    · have stops : inTarget line t = false := by simpa [inTarget] using inside
      simp [bracketed, h, inside, stops]

theorem readTarget_less {t : Token} {ts : List Token} {line : UInt32}
    (opens : t.kind = .less) (same : t.line = line) (hash : Location) :
    readTarget hash line (t :: ts) =
      match ts.dropWhile (inTarget line) with
      | [] => .giveUp [] (Fault.unterminatedTarget.report hash)
      | closing :: rest =>
        if closing.line = line then
          .done
            ⟨t.text ++ (ts.takeWhile (inTarget line)).flatMap Token.text ++
              closing.text, hash⟩ rest
        else .giveUp (closing :: rest)
          (Fault.unterminatedTarget.report hash) := by
  simp only [readTarget, opens, same]
  rfl

/-- Behind an opening bracket the target goes on up to the closing one, if
that is on the line. -/
theorem run_target_of_less {t : Token} {ts : List Token} {line : UInt32}
    (h : Stands tokens (t :: ts)) (opens : t.kind = .less)
    (same : t.line = line) (hash : Location) (content : Content) :
    (target tokens hash line).run (before tokens (t :: ts) content) =
      some ((readTarget hash line (t :: ts)).value,
        before tokens (readTarget hash line (t :: ts)).rest
          (content ++ .ofLog (readTarget hash line (t :: ts)).log)) := by
  have behind := h.tail.of_suffix (List.dropWhile_suffix (inTarget line))
  rw [readTarget_less opens same]
  cases left : ts.dropWhile (inTarget line) with
  | nil =>
    rw [left] at behind
    simp [target, h, opens, same, run_bracketed h.tail h.tail.enough, left,
      behind, kind_endMark h.ends, Parsed.giveUp]
  | cons closing rest =>
    rw [left] at behind
    have stops : inTarget line closing = false := by
      have none_inside :=
        List.head_dropWhile_not (inTarget line) (l := ts) (by simp [left])
      simpa only [left, List.head_cons] using none_inside
    by_cases here : closing.line = line
    · have greater : closing.kind = .greater := by
        simpa [inTarget, here] using stops
      simp [target, h, opens, same, run_bracketed h.tail h.tail.enough,
        left, behind, here, greater, Parsed.done]
    · simp [target, h, opens, same, run_bracketed h.tail h.tail.enough,
        left, behind, here, Parsed.giveUp]

theorem follows_target (tokens : List Token)
    (hash : Location) (line : UInt32) (rest : List Token) :
    Follows tokens rest (target tokens hash line)
      (readTarget hash line rest) := by
  refine ⟨within_readTarget _ _ _, fun h content => ?_⟩
  cases rest with
  | nil =>
    simp [target, h, kind_endMark h.ends, run_skipLine h, readTarget,
      Parsed.giveUp]
  | cons t ts =>
    by_cases same : t.line = line
    · by_cases opens : t.kind = .less
      · exact run_target_of_less h opens same hash content
      · by_cases string : t.kind = .string
        · simp [target, h, string, same, readTarget, Parsed.done]
        · simp [target, h, string, opens, same, run_skipLine h, readTarget,
            Parsed.giveUp]
    · simp [target, h, same, run_skipLine h, readTarget, Parsed.giveUp]

theorem follows_includeLine (tokens : List Token)
    (t : Token) (ts : List Token) :
    Follows tokens (t :: ts) (includeLine tokens)
      (readInclude (endMark tokens) t.location ts) := by
  refine ⟨(within_readInclude _ _ _).cons t, fun h content => ?_⟩
  cases ts with
  | nil =>
    simp [includeLine, h, h.tail, Token.isWord, kind_endMark h.ends,
      run_skipLine h.tail, readInclude, Decl.blame, Parsed.giveUp]
  | cons u us =>
    by_cases named : u.isWord "include"
    · have reads :=
        (follows_target tokens t.location u.line us).run h.tail.tail content
      simp [includeLine, h, h.tail, named, reads, readInclude]
    · simp [includeLine, h, h.tail, named, run_skipLine h.tail, readInclude,
        Parsed.giveUp, place]

/-! ## Names of namespaces -/

/-- The components of a name from the first one on, behind those that are
taken. -/
def componentsStep (stop : Token) (taken : List Text) (tokens : List Token) :
    Parsed (List Text) :=
  (Decl.expect stop .identifier .missingNamespaceName tokens).andThen
    fun first rest =>
    match pathTail rest with
    | (none, rest) => Decl.blame stop .missingNamespaceName rest
    | (some components, rest) =>
      .done (taken ++ first.text :: components) rest

theorem within_componentsStep (stop : Token)
    (taken : List Text) (tokens : List Token) :
    (componentsStep stop taken tokens).Within tokens := by
  refine (within_expect stop _ _ _).andThen fun first rest => ?_
  have tail := pathTail_suffix rest
  split <;> rename_i found <;> rw [found] at tail <;> exact tail

theorem pathTail_of_ne {t : Token} (other : t.kind ≠ .scope)
    (ts : List Token) : pathTail (t :: ts) = (some [], t :: ts) := by
  cases ts <;> simp [pathTail, other]

/-- Behind a `::` another name has to start. -/
theorem componentsStep_cons {t u : Token} (named : t.kind = .identifier)
    (colons : u.kind = .scope) (stop : Token)
    (taken : List Text) (us : List Token) :
    componentsStep stop taken (t :: u :: us) =
      componentsStep stop (taken ++ [t.text]) us := by
  cases us with
  | nil => simp [componentsStep, Decl.expect, named, pathTail, colons]
  | cons v vs =>
    by_cases again : v.kind = .identifier
    · rcases found : pathTail vs with ⟨_ | components, rest⟩ <;>
        simp [componentsStep, Decl.expect, named, pathTail, colons,
          again, found]
    · simp [componentsStep, Decl.expect, named, pathTail, colons, again]

theorem run_namespaceName {tokens : List Token} :
    ∀ {n : Nat} {rest : List Token}, Stands tokens rest → rest.length < n →
      ∀ (taken : List Text) (content : Content),
        (namespaceName tokens n taken).run (before tokens rest content) =
          some ((componentsStep (endMark tokens) taken rest).value,
            before tokens (componentsStep (endMark tokens) taken rest).rest
              (content ++
                .ofLog (componentsStep (endMark tokens) taken rest).log))
  | 0, _, _, enough, _, _ => absurd enough (Nat.not_lt_zero _)
  | n + 1, [], h, _, taken, content => by
    simp [namespaceName, h, componentsStep, Decl.expect, Decl.blame,
      Parsed.giveUp, Parsed.andThen]
  | n + 1, [t], h, _, taken, content => by
    by_cases named : t.kind = .identifier
    · simp [namespaceName, h, h.tail, named, componentsStep, Decl.expect,
        pathTail, Parsed.done, Parsed.andThen]
    · simp [namespaceName, h, named, componentsStep, Decl.expect,
        Decl.blame, Parsed.giveUp, Parsed.andThen]
  | n + 1, t :: u :: us, h, enough, taken, content => by
    by_cases named : t.kind = .identifier
    · by_cases colons : u.kind = .scope
      · have further : us.length < n :=
          Nat.lt_of_succ_lt (Nat.lt_of_succ_lt_succ enough)
        simp [namespaceName, h, h.tail, named, colons,
          run_namespaceName h.tail.tail further,
          componentsStep_cons named colons]
      · simp [namespaceName, h, h.tail, named, colons, componentsStep,
          Decl.expect, pathTail_of_ne colons, Parsed.done, Parsed.andThen]
    · simp [namespaceName, h, named, componentsStep, Decl.expect,
        Decl.blame, Parsed.giveUp, Parsed.andThen]

theorem follows_namespaceName (tokens : List Token)
    (taken : List Text) (rest : List Token) :
    Follows tokens rest (namespaceName tokens tokens.length taken)
      (componentsStep (endMark tokens) taken rest) :=
  ⟨within_componentsStep _ _ _, fun h => run_namespaceName h h.enough taken⟩

theorem follows_namespaceHead (tokens : List Token)
    (t : Token) (ts : List Token) :
    Follows tokens (t :: ts) (namespaceHead tokens)
      (readNamespace (endMark tokens) ts) := by
  have same :
      readNamespace (endMark tokens) ts =
        (componentsStep (endMark tokens) [] ts).andThen fun components rest =>
      (Decl.expect (endMark tokens) .lbrace .missingNamespaceBrace rest).andThen
        fun _ rest => .done components rest := by
    rw [readNamespace, componentsStep, Parsed.andThen_assoc]
    congr
    funext first rest
    rcases pathTail rest with ⟨_ | components, rest⟩ <;> rfl
  rw [same]
  have whole :=
    (follows_namespaceName tokens [] ts).andThen fun components between =>
        (follows_expect tokens .lbrace (by simp) .missingNamespaceBrace
            between).andThen fun _ => follows_done components
  exact ⟨whole.within.cons t,
    fun h content => by simpa [namespaceHead, h] using whole.run h.tail content⟩

end Cursor
end Decl
end MirrorAdapter
