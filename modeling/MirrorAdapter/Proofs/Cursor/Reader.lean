import MirrorAdapter.Decl.Parser

/-!
# Reading by position

The grammar of mirror files, read in loops over positions in the whole list of
tokens. Nothing here sees to it that a position lies in the list or that a
loop makes progress. A reader that looks outside the list, behind the first
mark of the end of the file, or before the first token has no outcome, and
neither has one with a loop that goes round more often than there are tokens:
the first argument of a loop counts the rounds that it has left. So an outcome
says that none of this has happened, and that loops without a count would have
done the same.
-/
namespace MirrorAdapter
namespace Decl

/-- Where a reader stands, and what it has found so far. -/
structure Cursor where
  position : Nat := 0
  content : Content := {}

namespace Cursor

/-- A step of reading. -/
abbrev Reader := StateT Cursor Option

/-- Reads on with what was found. Where the first reader gave up, so does the
whole. -/
def Reader.andThen {α β : Type} (first : Reader (Option α))
    (second : α → Reader (Option β)) : Reader (Option β) := do
  match ← first with
  | none => return none
  | some a => second a

/-! ## What is found -/

def contribute (added : Content) : Reader Unit :=
  modify fun c => { c with content := c.content ++ added }

def report (d : Diagnostic) : Reader Unit := contribute (.ofLog [d])

/-- Yields what was found, or reports what is wrong with it. -/
def settle {α : Type} (found : Except Diagnostic α) : Reader (Option α) := do
  match found with
  | .ok a => return some a
  | .error wrong =>
    report wrong
    return none

section
variable (tokens : List Token)

/-! ## Looking and moving -/

/-- The token at a position. Nothing outside the list may be looked at, and
nothing behind a mark of the end. -/
def look (i : Nat) : Reader Token :=
  StateT.lift
    (if (tokens.take i).all (·.kind != .eof) then tokens[i]? else none)

def current : Reader Token := do look tokens (← get).position

/-- The token so many places ahead; past the last one that one. -/
def peek (offset : Nat) : Reader Token := do
  look tokens (min ((← get).position + offset) (tokens.length - 1))

def previous : Reader Token := do
  match (← get).position with
  | 0 => failure
  | i + 1 => look tokens i

def atEnd : Reader Bool := return (← current tokens).kind == .eof

def check (kind : Token.Kind) : Reader Bool :=
  return (← current tokens).kind == kind

def checkWord (word : Text) : Reader Bool :=
  return (← current tokens).isWord word

/-- Whether the current token stands on the line. -/
def onLine (line : UInt32) : Reader Bool :=
  return (← current tokens).line == line

/-- Moves on, unless this is the end, and yields the token just passed. -/
def advance : Reader Token := do
  if !(← atEnd tokens) then
    modify fun c => { c with position := c.position + 1 }
  previous tokens

/-- Moves on if the current token is of the kind. -/
def accept (kind : Token.Kind) : Reader Bool := do
  if ← check tokens kind then
    let _ ← advance tokens
    return true
  else return false

/-- Gives up, reporting a fault at the current token. -/
def blame {α : Type} (fault : Fault) : Reader (Option α) := do
  report (fault.report (← current tokens).location)
  return none

/-- Moves on if the current token is of the kind, and yields it; otherwise
reports the fault. -/
def expect (kind : Token.Kind) (fault : Fault) : Reader (Option Token) := do
  if ← check tokens kind then return some (← advance tokens)
  else blame tokens fault

/-- Moves on if nothing has moved the reader from where it started. -/
def unstick (start : Nat) : Reader Unit := do
  if (← get).position == start then
    let _ ← advance tokens

/-! ## Skipping -/

/-- Skips to behind the end of a statement, or to a closing brace that is none
of the statement's, inside `depth` open braces. -/
def skipFrom : Nat → Nat → Reader Unit
  | 0, _ => failure
  | n + 1, depth => do
    if ← atEnd tokens then return
    else if ← check tokens .lbrace then
      let _ ← advance tokens
      skipFrom n (depth + 1)
    else if ← check tokens .rbrace then
      if depth = 0 then return
      else
        let _ ← advance tokens
        if depth = 1 then
          let _ ← accept tokens .semicolon
        else skipFrom n (depth - 1)
    else if ← check tokens .semicolon then
      let _ ← advance tokens
      if depth = 0 then return else skipFrom n depth
    else
      let _ ← advance tokens
      skipFrom n depth

def skipRest : Reader Unit := skipFrom tokens tokens.length 0

/-- Skips to the end of a member of a body, inside `depth` open braces, but
not over a semicolon there. -/
def skipMemberFrom : Nat → Nat → Reader Unit
  | 0, _ => failure
  | n + 1, depth => do
    if ← atEnd tokens then return
    else
      let t ← current tokens
      if depth = 0 ∧ (t.kind = .rbrace ∨ t.kind = .semicolon) then return
      else
        let inner :=
          if t.kind = .lbrace then depth + 1
          else if t.kind = .rbrace then depth - 1 else depth
        let _ ← advance tokens
        let passed ← previous tokens
        if inner = 0 ∧ passed.kind = .rbrace then
          return else skipMemberFrom n inner

def skipMember : Reader Unit := skipMemberFrom tokens tokens.length 0

def skipLineFrom (line : UInt32) : Nat → Reader Unit
  | 0 => failure
  | n + 1 => do
    if ← atEnd tokens then return
    else if ← onLine tokens line then
      let _ ← advance tokens
      skipLineFrom line n
    else return

def skipLine (line : UInt32) : Reader Unit :=
  skipLineFrom tokens line tokens.length

/-! ## Attributes -/

/-- The rest of the name of an attribute. -/
def nameTail : Nat → Text → Reader (Option Text)
  | 0, _ => failure
  | n + 1, name => do
    if ← accept tokens .scope then
      if ← check tokens .identifier then
        let component ← advance tokens
        nameTail n (name ++ "::" ++ component.text)
      else blame tokens .missingAttributeComponent
    else return some name

/-- The tokens before the parenthesis that closes the last of `depth` open
ones. -/
def argumentsFrom : Nat → Nat → List Token → Reader (List Token)
  | 0, _, _ => failure
  | n + 1, depth, taken => do
    if ← atEnd tokens then return taken
    else if ← check tokens .lparen then
      let t ← advance tokens
      argumentsFrom n (depth + 1) (taken ++ [t])
    else if ← check tokens .rparen then
      if depth = 1 then return taken
      else
        let t ← advance tokens
        argumentsFrom n (depth - 1) (taken ++ [t])
    else
      let t ← advance tokens
      argumentsFrom n depth (taken ++ [t])

/-- The arguments of the named attribute, if a parenthesis opens here; none if
it is not closed. -/
def arguments (name : Text) : Reader (Option (Option (List Token))) := do
  if ← accept tokens .lparen then
    let inside ← argumentsFrom tokens tokens.length 1 []
    (expect tokens .rparen (.unbalancedArguments name)).andThen
      fun _ => return some (some inside)
  else return some none

def oneAttribute : Reader (Option Attribute) := do
  let location := (← current tokens).location
  (expect tokens .identifier .missingAttributeName).andThen fun first =>
    (nameTail tokens tokens.length first.text).andThen
      fun name => (arguments tokens name).andThen
          fun arguments => return some { name, location, arguments }

/-- Takes a directive, and warns of any other attribute. -/
def keep (taken : List Attribute) (a : Attribute) :
    Reader (List Attribute) := do
  if a.isDirective then return taken ++ [a]
  else
    report ((Fault.ignoredAttribute a.name).report a.location)
    return taken

def attributeList : Nat → List Attribute → Reader (Option (List Attribute))
  | 0, _ => failure
  | n + 1, taken => do
    if ← check tokens .rbracket then return some taken
    else
      (oneAttribute tokens).andThen fun a => do
        let taken ← keep taken a
        if ← accept tokens .comma then attributeList n taken
        else return some taken

/-- Whether two brackets open here. -/
def atGroup : Reader Bool := do
  if ← check tokens .lbracket then return (← peek tokens 1).kind == .lbracket
  else return false

/-- An attribute group, its two opening brackets included. -/
def group (taken : List Attribute) : Reader (Option (List Attribute)) := do
  let _ ← advance tokens
  let _ ← advance tokens
  (attributeList tokens tokens.length taken).andThen fun taken =>
    (expect tokens .rbracket .unclosedAttributeList).andThen
      fun _ => (expect tokens .rbracket .unclosedAttributeList).andThen
          fun _ => return some taken

def groupsFrom : Nat → List Attribute → Reader (Option (List Attribute))
  | 0, _ => failure
  | n + 1, taken => do
    if ← atGroup tokens then (group tokens taken).andThen (groupsFrom n)
    else return some taken

/-- All attribute groups that start here. -/
def attributeGroups (taken : List Attribute) :
    Reader (Option (List Attribute)) :=
  groupsFrom tokens tokens.length taken

/-! ## Template parameters -/

/-- The parameter that the tokens taken declare. -/
def param (taken : List Token) : Reader (Option LocatedParam) := do
  settle (templateParam (← current tokens) [] taken)

def paramsFrom :
    Nat → Int → List Token → List LocatedParam →
    Reader (Option (List LocatedParam))
  | 0, _, _, _ => failure
  | n + 1, depth, taken, params => do
    if ← atEnd tokens then blame tokens .unterminatedTemplateList
    else
      let t ← current tokens
      if depth = 0 ∧ t.kind = .greater then
        let _ ← advance tokens
        (param tokens taken).andThen fun last => return some (params ++ [last])
      else if depth = 0 ∧ t.kind = .comma then
        let _ ← advance tokens
        (param tokens taken).andThen
          fun next => paramsFrom n 0 [] (params ++ [next])
      else
        let t ← advance tokens
        paramsFrom n (depth + t.kind.nesting) (taken ++ [t]) params

/-- The report of a template clause without parameters. -/
def explicitSpecialization (location : Location) : Diagnostic where
  severity := .error
  location := location
  message := "explicit specializations cannot be mirror types"

/-- The attributes behind a template clause, which has to have parameters. -/
def behindTemplate (taken : List Attribute) (params : List LocatedParam) :
    Reader (Option (List LocatedParam × List Attribute)) := do
  if params.isEmpty then
    report (explicitSpecialization (← previous tokens).location)
    return none
  else
    (attributeGroups tokens taken).andThen fun taken =>
      return some (params, taken)

/-- The template clause of a mirror type and the attributes behind it. -/
def templateClause (taken : List Attribute) :
    Reader (Option (List LocatedParam × List Attribute)) := do
  if ← checkWord tokens "template" then
    let _ ← advance tokens
    (expect tokens .less .missingTemplateList).andThen
      fun _ => (paramsFrom tokens tokens.length 0 [] []).andThen
          (behindTemplate tokens taken)
  else return some ([], taken)

/-! ## Members -/

/-- The tokens of a field up to the mark that ends it; none where a mark ends
it that may not. -/
def fieldFrom : Nat → Int → List Token → Reader (Option (List Token))
  | 0, _, _ => failure
  | n + 1, depth, taken => do
    if ← atEnd tokens then return some taken
    else
      let t ← current tokens
      if depth = 0 ∧ (t.kind = .semicolon ∨ t.kind = .rbrace) then
        return some taken
      else if depth = 0 ∧ t.kind = .equal then blame tokens .initializer
      else if depth = 0 ∧ t.kind = .lparen then blame tokens .notADataField
      else
        let t ← advance tokens
        fieldFrom n (depth + t.kind.nesting) (taken ++ [t])

/-- A field without its attributes. -/
def plainField (attributes : List Attribute) : Reader (Option Field) := do
  let location := (← current tokens).location
  (fieldFrom tokens tokens.length 0 []).andThen fun taken =>
    (expect tokens .semicolon .unterminatedField).andThen fun _ =>
      settle ((fieldOf attributes taken).mapError (·.report location))

def field : Reader (Option Field) :=
  (attributeGroups tokens []).andThen (plainField tokens)

/-- Whether a label with one of the words stands here. -/
def atLabel (words : List Text) : Reader Bool := do
  let t ← current tokens
  if words.any t.isWord then return (← peek tokens 1).kind == .colon
  else return false

/-- The members up to the end of a body, and whether all were sound. -/
def members : Nat → Bool → List Field → Reader (Bool × List Field)
  | 0, _, _ => failure
  | n + 1, sound, fields => do
    if ← atEnd tokens then return (sound, fields)
    else if ← check tokens .rbrace then return (sound, fields)
    else if ← atLabel tokens ["public"] then
      let _ ← advance tokens
      let _ ← advance tokens
      members n sound fields
    else if ← atLabel tokens ["private", "protected"] then
      let _ : Option Unit ← blame tokens .notPublic
      let _ ← advance tokens
      let _ ← advance tokens
      members n false fields
    else
      let start := (← get).position
      match ← field tokens with
      | some found =>
        unstick tokens start
        members n sound (fields ++ [found])
      | none =>
        skipMember tokens
        let _ ← accept tokens .semicolon
        unstick tokens start
        members n false fields

/-! ## Definitions -/

/-- Tells a class from a struct. -/
def keyword : Reader (Option Bool) := do
  let t ← current tokens
  if t.isWord "struct" || t.isWord "class" then
    let _ ← advance tokens
    return some (t.text == Text.ofString "class")
  else blame tokens (.notADefinition t.text)

/-- What stands before the body of a definition. -/
def head : Reader (Option Head) :=
  (attributeGroups tokens []).andThen fun leading =>
    (templateClause tokens leading).andThen fun (templateParams, leading) =>
      (keyword tokens).andThen fun isClass =>
        (attributeGroups tokens leading).andThen fun attributes =>
          (expect tokens .identifier .missingMirrorName).andThen fun name =>
            return some
              { name := name.text, location := name.location, isClass,
                templateParams, attributes }

/-- The body of a definition and its end, and whether that was passed. -/
def body (scope : List Text) (head : Head) :
    Reader (Option Mirror × Bool) := do
  match ← expect tokens .lbrace .missingBody with
  | none => return (none, false)
  | some _ =>
    let (sound, fields) ← members tokens tokens.length true []
    let closing ← (expect tokens .rbrace .unclosedBody).andThen fun _ =>
        expect tokens .semicolon .unterminatedMirror
    let mirror : Mirror :=
      { name := head.name
        location := head.location
        scope
        isClass := head.isClass
        templateParams := head.templateParams
        attributes := head.attributes
        fields }
    return (if closing.isSome && sound then some mirror else none,
        closing.isSome)

/-- A definition after its head. -/
def definition (scope : List Text) (head : Head) :
    Reader (Option Mirror × Bool) := do
  if ← check tokens .semicolon then
    report ((Fault.forwardDeclaration head.name).report head.location)
    let _ ← advance tokens
    return (none, true)
  else if ← check tokens .colon then
    return (← blame tokens (.baseClasses head.name), false)
  else body tokens scope head

/-- A mirror type unless it is malformed, and whether the end of its
definition was passed. -/
def mirror (scope : List Text) : Reader (Option Mirror × Bool) := do
  match ← head tokens with
  | none => return (none, false)
  | some head => definition tokens scope head

/-! ## Items of a file -/

/-- Everything on the line up to the next `>`, behind what is taken. -/
def bracketed (line : UInt32) : Nat → Text → Reader Text
  | 0, _ => failure
  | n + 1, taken => do
    if ← atEnd tokens then return taken
    else
      let t ← current tokens
      if t.line = line ∧ t.kind ≠ .greater then
        let t ← advance tokens
        bracketed line n (taken ++ t.text)
      else return taken

/-- The rest of an include line, behind the word `include` on the given
line. -/
def target (hash : Location) (line : UInt32) : Reader (Option Include) := do
  let t ← current tokens
  if t.kind = .string ∧ t.line = line then
    let t ← advance tokens
    return some ⟨"\"" ++ t.text ++ "\"", hash⟩
  else if t.kind = .less ∧ t.line = line then
    let t ← advance tokens
    let spelling ← bracketed tokens line tokens.length t.text
    let closing ← current tokens
    if closing.kind = .greater ∧ closing.line = line then
      let closing ← advance tokens
      return some ⟨spelling ++ closing.text, hash⟩
    else
      report (Fault.unterminatedTarget.report hash)
      return none
  else
    report (Fault.missingTarget.report hash)
    skipLine tokens line
    return none

/-- A line that starts with `#`. -/
def includeLine : Reader (Option Include) := do
  let hash := (← current tokens).location
  let _ ← advance tokens
  let word ← current tokens
  if word.isWord "include" then
    let _ ← advance tokens
    target tokens hash word.line
  else
    let gaveUp ← blame tokens .notAnInclude
    skipLine tokens hash.line
    return gaveUp

/-- The components of the name of a namespace, of which some are taken. -/
def namespaceName : Nat → List Text → Reader (Option (List Text))
  | 0, _ => failure
  | n + 1, taken => do
    if ← check tokens .identifier then
      let component ← advance tokens
      if ← accept tokens .scope then namespaceName n (taken ++ [component.text])
      else return some (taken ++ [component.text])
    else blame tokens .missingNamespaceName

/-- A namespace block up to its opening brace. -/
def namespaceHead : Reader (Option (List Text)) := do
  let _ ← advance tokens
  (namespaceName tokens tokens.length []).andThen
    fun components => (expect tokens .lbrace .missingNamespaceBrace).andThen
        fun _ => return some components

/-- An include line, which is kept even inside a namespace block, but with a
warning there. -/
def includeItem (scope : List Text) : Reader Unit := do
  match ← includeLine tokens with
  | none => return
  | some found =>
    if !scope.isEmpty then report (Fault.hoistedInclude.report found.location)
    contribute { includes := [found] }

/-- A definition. Where its end was not passed, the rest of its statement is
skipped. -/
def mirrorItem (scope : List Text) : Reader Unit := do
  let start := (← get).position
  match ← mirror tokens scope with
  | (some found, _) => contribute { mirrors := [found] }
  | (none, true) => pure ()
  | (none, false) => skipRest tokens
  unstick tokens start

/-- A namespace block, and whether it was closed. What is in it is read as the
given reader does. -/
def namespaceBlock (inside : List Text → Reader Unit) (scope : List Text) :
    Reader Bool := do
  let location := (← current tokens).location
  match ← namespaceHead tokens with
  | none => return false
  | some components =>
    inside (scope ++ components)
    if ← accept tokens .rbrace then return true
    else
      report (Fault.unclosedNamespace.report location)
      return false

def item (inside : List Text → Reader Unit) (scope : List Text) :
    Reader Unit := do
  if ← check tokens .hash then includeItem tokens scope
  else if ← checkWord tokens "namespace" then
    if ← namespaceBlock tokens inside scope then return else skipRest tokens
  else if ← accept tokens .semicolon then return
  else mirrorItem tokens scope

/-- All items up to the end of a namespace block, or of the file. -/
def items : Nat → List Text → Reader Unit
  | 0, _ => failure
  | n + 1, scope => do
    if ← atEnd tokens then return
    else if ← check tokens .rbrace then return
    else
      item tokens (items n) scope
      items n scope

/-- All of a file. -/
def file : Nat → Reader Unit
  | 0 => failure
  | n + 1 => do
    if ← atEnd tokens then return
    else
      items tokens tokens.length []
      if ← check tokens .rbrace then
        let _ : Option Unit ← blame tokens .unbalancedBrace
        let _ ← advance tokens
        file n
      else file n

end

/-- The tokens with a mark of the end of the file behind them, unless the last
one is such a mark. -/
def closed (path : Text) (tokens : List Token) : List Token :=
  match tokens.getLast? with
  | some last =>
    if last.kind = .eof then tokens else tokens ++ [⟨.eof, [], .start path⟩]
  | none => [⟨.eof, [], .start path⟩]

/-- Reads a file from its first token on, and yields where it stands at the
end. -/
def readFile (path : Text) (tokens : List Token) : Option Cursor :=
  ((file (closed path tokens) (closed path tokens).length).run {}).map (·.2)

end Cursor
end Decl
end MirrorAdapter
