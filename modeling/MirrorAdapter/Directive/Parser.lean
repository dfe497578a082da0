import MirrorAdapter.Directive.Item
import MirrorAdapter.Token.Lexer
import MirrorAdapter.Token.Spelling

/-!
# Reading directives

All items of all attributes are looked at even after a fault, so one pass
reports everything. Reading fails iff something was reported.
-/
namespace MirrorAdapter
namespace Directive

/-- The type that one part of a type list names. -/
def readType (item : Item) (tokens : List Token) : Except Finding Reference :=
  match tokens with
  | [] => .error ⟨.emptyType item.key, item.location⟩
  | first :: _ =>
    if first.kind = .string then .error ⟨.stringType item.key, first.location⟩
    else .ok ⟨Token.spell tokens, first.location⟩

/-- The types in the list of an item. -/
def readTypes (item : Item) : List Reference × List Finding :=
  match item.argument with
  | .list tokens =>
    let types := (splitArguments tokens).map (readType item)
    (sound types, findings types)
  | _ => ([], [⟨.notATypeList item.key, item.location⟩])

/-- The one type in the list of an item. -/
def readSingleType (item : Item) : Except (List Finding) Reference :=
  match readTypes item with
  | ([type], []) => .ok type
  | (_, []) => .error [⟨.notOneType item.key, item.location⟩]
  | (_, found) => .error found

/-- Whether the rest of a name is `::`-separated identifiers, inside `depth`
open `<` and before a name where `expectName`. Inside template arguments
anything may stand. -/
def namePath (depth : Nat) (expectName : Bool) : List Token → Bool
  | [] => !expectName
  | t :: ts =>
    match depth with
    | inner + 1 =>
      match t.kind with
      | .less => namePath (inner + 2) expectName ts
      | .greater => namePath inner expectName ts
      | _ => namePath (inner + 1) expectName ts
    | 0 =>
      if expectName then t.kind == .identifier && namePath 0 false ts
      else
        match t.kind with
        | .scope => namePath 0 true ts
        | .less => namePath 1 false ts
        | _ => false

/-- Whether a `::` stands outside the template arguments of a name. -/
def hasScope (depth : Nat) : List Token → Bool
  | [] => false
  | t :: ts =>
    match t.kind with
    | .less => hasScope (depth + 1) ts
    | .greater => hasScope (depth - 1) ts
    | .scope => depth == 0 || hasScope depth ts
    | _ => hasScope depth ts

/-- Whether tokens form a qualified name: identifiers separated by `::`, with
at least one `::`, each but the last possibly followed by template
arguments. -/
def isQualifiedName (tokens : List Token) : Bool :=
  let endsInName : Bool := match tokens.getLast? with
    | some last => last.kind == .identifier
    | none => false
  let afterScope :=
    if Token.startsWith .scope tokens then tokens.tail else tokens
  endsInName && Token.balanced tokens && namePath 0 true afterScope &&
    hasScope 0 tokens

/-- The function that a getter item names in a string literal. -/
def readGetter (item : Item) : Except Finding Reference :=
  match item.argument with
  | .value [literal] =>
    if literal.kind = .string then
      let tokens := Token.scanBody literal.location.file literal.text
      if isQualifiedName tokens then .ok ⟨Token.spell tokens, literal.location⟩
      else .error ⟨.getterNotQualified literal.text, literal.location⟩
    else .error ⟨.getterNotAString, item.location⟩
  | _ => .error ⟨.getterNotAString, item.location⟩

/-- What an item says of a type. -/
def typeItem (item : Item) : List Reference × List Finding :=
  match Key.ofWord? item.key with
  | some .source => readTypes item
  | some _ => ([], [⟨.onlyOnFields item.key, item.location⟩])
  | none => ([], [⟨.unknown item.key, item.location⟩])

/-- Sets a directive that may be given once. -/
def setOnce {α : Type} (item : Item) (given : Bool)
    (value : Except (List Finding) α) (set : α → FieldDirectives)
    (d : FieldDirectives) : FieldDirectives × List Finding :=
  if given then (d, [⟨.repeated item.key, item.location⟩])
  else
    match value with
    | .ok a => (set a, [])
    | .error found => (d, found)

/-- Adds what an item says of a field. -/
def fieldItem (d : FieldDirectives) (item : Item) :
    FieldDirectives × List Finding :=
  match Key.ofWord? item.key with
  | some .source =>
    setOnce item d.source.isSome (readSingleType item)
      (fun r => { d with source := some r }) d
  | some .via =>
    setOnce item d.via.isSome (readSingleType item)
      (fun r => { d with via := some r }) d
  | some .getter =>
    setOnce item d.getter.isSome ((readGetter item).mapError ([·]))
      (fun r => { d with getter := some r }) d
  | some .getterOwned =>
    let flag : Except (List Finding) Location :=
      if item.argument = .absent then .ok item.location
      else .error [⟨.flagWithArguments, item.location⟩]
    setOnce item d.getterOwned flag
      (fun l => { d with getterOwned := true, getterOwnedLocation := l }) d
  | none => (d, [⟨.unknown item.key, item.location⟩])

/-- Adds what a list of items says of a field. -/
def fieldItems (d : FieldDirectives) :
    List Item → FieldDirectives × List Finding
  | [] => (d, [])
  | item :: items =>
    let (d, found) := fieldItem d item
    let (d, more) := fieldItems d items
    (d, found ++ more)

/-- Adds what attributes say of a field. Faults of an attribute's form come
before those of its items. -/
def fieldAttributes (d : FieldDirectives) :
    List Decl.Attribute → FieldDirectives × List Finding
  | [] => (d, [])
  | a :: rest =>
    let items := readItems a
    let (d, found) := fieldItems d (sound items)
    let (d, more) := fieldAttributes d rest
    (d, findings items ++ found ++ more)

/-- What attributes say of a type. -/
def typeAttributes (attributes : List Decl.Attribute) :
    List Reference × List Finding :=
  let read (a : Decl.Attribute) : List Reference × List Finding :=
    let items := readItems a
    let types := (sound items).map typeItem
    (types.flatMap (·.1), findings items ++ types.flatMap (·.2))
  (attributes.flatMap fun a => (read a).1,
    attributes.flatMap fun a => (read a).2)

/-- Succeeds iff nothing was found. -/
def conclude {α : Type} (subject : Subject) (error : Error) (value : α)
    (found : List Finding) : Outcome Error α where
  result := if found.isEmpty then .ok value else .error error
  log := found.map (·.report subject)

def ofType (m : Decl.Mirror) : Outcome Error TypeDirectives :=
  let (remoteTypes, found) := typeAttributes m.attributes
  let location := match m.attributes with
    | [] => m.location
    | first :: _ => first.location
  conclude (.mirror m.qualifiedName) (.type m.qualifiedName)
    { location, present := !m.attributes.isEmpty, remoteTypes } found

def ofField (m : Decl.Mirror) (f : Decl.Field) :
    Outcome Error FieldDirectives :=
  let (directives, found) := fieldAttributes {} f.attributes
  conclude (.field m.qualifiedName f.name) (.field m.qualifiedName f.name)
    directives found

/-- All directives of a declaration, if all of them are sound. -/
def ofMirror (m : Decl.Mirror) : Outcome Error Model :=
  let type := ofType m
  let fields := m.fields.map (ofField m)
  { result :=
      match type.result, fields.mapM (·.result) with
      | .ok type, .ok fields => .ok { type, fields }
      | _, _ => .error (.model m.qualifiedName)
    log := type.log ++ fields.flatMap (·.log) }

end Directive
end MirrorAdapter
