import MirrorAdapter.Decl.Basic
import MirrorAdapter.Token.Spelling

/-!
# Outline of declarations

A readable listing of what a module declares: one block a file, one block a
mirror, one line for an include, an attribute or a field.
-/
namespace MirrorAdapter
namespace Decl

def Attribute.outline (indent : Text) (a : Attribute) : Text :=
  let arguments : Text := match a.arguments with
    | none => []
    | some tokens => "(" ++ Token.spell tokens ++ ")"
  indent ++ "[[" ++ a.name ++ arguments ++ "]]\n"

def Field.outline (f : Field) : Text :=
  f.attributes.flatMap (Attribute.outline "      ") ++
    "      field " ++ f.type.spelling ++ " " ++ f.name ++ "\n"

def Mirror.outline (m : Mirror) : Text :=
  let params : Text :=
    if m.templateParams.isEmpty then []
    else "<" ++ Text.join ", " (m.templateParams.map (·.declaration)) ++ ">"
  m.attributes.flatMap (Attribute.outline "    ") ++ "    " ++
    (if m.isClass then "class " else "struct ") ++ m.qualifiedName ++
    params ++ " \x7b\n" ++ m.fields.flatMap Field.outline ++ "    \x7d\n"

def Include.outline (i : Include) : Text := "    include " ++ i.target ++ "\n"

def File.outline (f : File) : Text :=
  "  file \"" ++ f.path ++ "\" \x7b\n" ++
    f.includes.flatMap Include.outline ++
    f.mirrors.flatMap Mirror.outline ++ "  \x7d\n"

def Module.outline (m : Module) : Text :=
  "module \x7b\n" ++ m.flatMap File.outline ++ "\x7d\n"

end Decl
end MirrorAdapter
