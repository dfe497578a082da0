import MirrorAdapter.FileMode
import MirrorAdapter.Path

/-!
# File systems

A tree of directories and regular files as a finite map from routes to nodes.
The map is read through `get?` only: the order of its entries, and entries
hidden behind others, do not matter. The root is a directory without an entry.
Main statements: `get?_insert` and `get?_erase` say what an update does to
what is read.
-/
namespace MirrorAdapter

/-- The names on the way from the root to a node. -/
abbrev Route := List Text

/-- A regular file. -/
structure StoredFile where
  mode : Nat
  content : Text
deriving Repr, DecidableEq, Inhabited

inductive Node where
  | file (f : StoredFile)
  | directory
deriving Repr, DecidableEq, Inhabited

/-- How the device can fail a new file once it is open. The file then keeps
the mode that it was opened with. -/
inductive Fault where
  /-- Only so many bytes of the content are stored. -/
  | write (mode stored : Nat)
  /-- The mode cannot be set. -/
  | setMode (mode : Nat)
deriving Repr, DecidableEq, Inhabited

/-- What is stored of a file that the device may have failed. -/
def Fault.remnant (f : StoredFile) : Option Fault → StoredFile
  | none => f
  | some (.write mode stored) => ⟨mode, f.content.take stored⟩
  | some (.setMode mode) => ⟨mode, f.content⟩

/-- A file system as a process sees it. -/
structure FileSystem where
  /-- The working directory. -/
  working : Route := []
  entries : List (Route × Node) := []
  /-- Where the device fails new files, which it may do anywhere. -/
  faults : List (Route × Fault) := []
deriving Repr, DecidableEq, Inhabited

namespace FileSystem

/-- The node at the end of a route. -/
def get? (fs : FileSystem) (route : Route) : Option Node :=
  if route = [] then some .directory else fs.entries.lookup route

/-- The file system without what a route leads to. -/
def erase (fs : FileSystem) (route : Route) : FileSystem :=
  { fs with entries := fs.entries.filter fun e => e.1 != route }

/-- The file system with a node at the end of a route, in the place of any
other there. -/
def insert (fs : FileSystem) (route : Route) (node : Node) : FileSystem :=
  { fs with entries := (route, node) :: (fs.erase route).entries }

/-- Whether nothing lies below a route. -/
def isEmptyBelow (fs : FileSystem) (route : Route) : Bool :=
  fs.entries.all
    fun e => !(route.isPrefixOf e.1 && decide (route.length < e.1.length))

/-- The regular files at any depth below a route, each with the rest of its
route. -/
def filesBelow (fs : FileSystem) (route : Route) : List (Route × StoredFile) :=
  fs.entries.filterMap fun e =>
    if route.isPrefixOf e.1 then
      match fs.get? e.1 with
      | some (.file f) => some (e.1.drop route.length, f)
      | _ => none
    else none

/-- Whether every node lies in a directory, and the working directory is
one. -/
structure IsTree (fs : FileSystem) : Prop where
  parent :
    ∀ route, fs.get? route ≠ none → fs.get? route.dropLast = some .directory
  working : fs.get? fs.working = some .directory

/-- The path of the working directory. -/
def workingPath (fs : FileSystem) : Path := "/" ++ Text.join "/" fs.working

@[simp] theorem get?_root (fs : FileSystem) :
    fs.get? [] = some .directory := rfl

@[simp] theorem working_insert (fs : FileSystem) (route : Route)
    (node : Node) : (fs.insert route node).working = fs.working := rfl

@[simp] theorem working_erase (fs : FileSystem) (route : Route) :
    (fs.erase route).working = fs.working := rfl

@[simp] theorem faults_erase (fs : FileSystem) (route : Route) :
    (fs.erase route).faults = fs.faults := rfl

theorem lookup_cons (key : Route) (node : Node)
    (entries : List (Route × Node)) (route : Route) :
    ((key, node) :: entries).lookup route =
      if route = key then some node else entries.lookup route := by
  rw [List.lookup_cons]
  by_cases h : route = key
  · simp [h]
  · simp [h, beq_false_of_ne h]

theorem lookup_filter_ne (entries : List (Route × Node)) (route other : Route) :
    (entries.filter fun e => e.1 != route).lookup other =
      if other = route then none else entries.lookup other := by
  induction entries with
  | nil => simp
  | cons e entries ih =>
    obtain ⟨key, node⟩ := e
    by_cases hk : key = route
    · subst hk
      simp only [bne_self_eq_false, Bool.false_eq_true, not_false_eq_true,
        List.filter_cons_of_neg, ih, lookup_cons]
      split <;> rfl
    · have kept : (key != route) = true := by simpa using hk
      simp only [kept, List.filter_cons_of_pos, lookup_cons, ih]
      split
      · rename_i ho
        simp [ho, hk]
      · rfl

theorem get?_erase (fs : FileSystem) {route : Route}
    (h : route ≠ []) (other : Route) :
    (fs.erase route).get? other =
      if other = route then none else fs.get? other := by
  by_cases ho : other = []
  · subst ho
    simp [h.symm]
  · simp [get?, ho, erase, lookup_filter_ne]

theorem get?_insert (fs : FileSystem) {route : Route}
    (h : route ≠ []) (node : Node) (other : Route) :
    (fs.insert route node).get? other =
      if other = route then some node else fs.get? other := by
  by_cases ho : other = []
  · subst ho
    simp [h.symm]
  · by_cases hr : other = route
    · simp [get?, insert, hr, h]
    · simp [get?, insert, erase, lookup_cons, ho, hr, lookup_filter_ne]

end FileSystem
end MirrorAdapter
