import Custody.Bytes
import Custody.Failure
import Custody.Text.Utf8

/-! A file system of directories and files, and the operations on it. Directories are made on a path of any length: no
limit to the depth of recursion is modelled. -/
namespace Custody

/-- A place in the file system: the names that lead to it from the root. -/
abbrev Location := List Text

/-- A file. Its serial number stays with it when its name is taken away. -/
structure File where
  serial : Nat
  content : Bytes
  modified : Int
  mode : Nat
deriving DecidableEq, Repr, Inhabited

inductive Node where
  | directory (mode : Nat)
  | file (f : File)
deriving DecidableEq, Repr, Inhabited

def Node.isDirectory : Node → Bool
  | .directory _ => true
  | .file _ => false

def Node.isFile (n : Node) : Bool := !n.isDirectory

/-- Whether a node has no serial number from `n` on. -/
def Node.Precedes (n : Nat) : Node → Prop
  | .directory _ => True
  | .file f => f.serial < n

/-- A node with the file of one serial number changed. -/
def Node.edit (serial : Nat) (g : File → File) : Node → Node
  | .directory mode => .directory mode
  | .file f => .file (if f.serial = serial then { g f with serial := f.serial } else f)

theorem Node.Precedes.mono {m n : Nat} (h : m ≤ n) : {x : Node} → x.Precedes m → x.Precedes n
  | .directory _, _ => trivial
  | .file _, hx => Nat.lt_of_lt_of_le hx h

theorem Node.Precedes.edit {n serial : Nat} {g : File → File} :
    {x : Node} → x.Precedes n → (x.edit serial g).Precedes n
  | .directory _, _ => trivial
  | .file f, hx => by
    have hf : f.serial < n := hx
    change (if f.serial = serial then { g f with serial := f.serial } else f).serial < n
    split <;> exact hf

/-- All places that exist, the working directory, the next serial number, and the time that new
contents get, in microseconds since 1970. No place is listed twice, and no file has a serial number
that is still to be given. -/
structure Disk where
  nodes : List (Location × Node)
  cwd : Location
  nextSerial : Nat
  time : Int
  nodup : (nodes.map Prod.fst).Nodup
  precedes : ∀ e ∈ nodes, e.2.Precedes nextSerial
deriving Repr

/-- An operation that may change the disk, also when it fails. -/
abbrev DiskAct := EStateM Failure Disk

namespace Disk

/-- A disk with an empty working directory below its root. -/
def empty (cwd : Text) (time : Int) : Disk where
  nodes := [([], .directory 0o755), ([cwd], .directory 0o755)]
  cwd := [cwd]
  nextSerial := 0
  time := time
  nodup := by simp
  precedes := by simp [Node.Precedes]

instance : Inhabited Disk := ⟨empty [] 0⟩

def node? (d : Disk) (l : Location) : Option Node := d.nodes.lookup l

/-- Byte values that have no UTF-8 form travel in names as the surrogates from `0xDC80` on. -/
def isEscapedByte (c : CodePoint) : Bool := 0xDC80 ≤ c.val && c.val ≤ 0xDCFF

def byteLength (t : Text) : Nat :=
  t.foldl (fun n c => n + if isEscapedByte c then 1 else (Utf8.encodePoint c).length) 0

def maxNameLength : Nat := 255

def maxPathLength : Nat := 4095

/-- A text can name something on the disk if it has an encoding and no zero character. -/
def checkPath (p : Path) : Except Failure Unit :=
  if p.text.any fun c => c.isSurrogate && !isEscapedByte c then .error .surrogate
  else if p.text.any fun c : CodePoint => c.val = 0 then .error .badValue
  else if maxPathLength < byteLength p.text then .error (.system .nameTooLong)
  else .ok ()

def step (d : Disk) (here : Location) (name : Text) : Except Failure Location :=
  match d.node? here with
  | none => .error (.system .notFound)
  | some (.file _) => .error (.system .notDirectory)
  | some (.directory _) =>
    if name = ".." then .ok here.dropLast
    else if maxNameLength < byteLength name then .error (.system .nameTooLong)
    else .ok (here ++ [name])

/-- The place that a path leads to, whether there is anything or not. -/
def locate (d : Disk) (p : Path) : Except Failure Location := do
  checkPath p
  p.parts.foldlM d.step (if p.root = .relative then d.cwd else [])

def stat (d : Disk) (p : Path) : Except Failure Node := do
  match d.node? (← d.locate p) with
  | some n => .ok n
  | none => .error (.system .notFound)

/-- Whether a failure only means that there is nothing under a path. -/
def isAbsence : Failure → Bool
  | .system .notFound | .system .notDirectory | .badValue | .surrogate => true
  | _ => false

/-- Whether what is found under a path passes a test. Nothing passes none. -/
def check (test : Node → Bool) (d : Disk) (p : Path) : Except Failure Bool :=
  match d.stat p with
  | .ok n => .ok (test n)
  | .error e => if isAbsence e then .ok false else .error e

def pathExists (d : Disk) (p : Path) : Except Failure Bool := check (fun _ => true) d p

def isDirectory (d : Disk) (p : Path) : Except Failure Bool := check Node.isDirectory d p

def isFile (d : Disk) (p : Path) : Except Failure Bool := check Node.isFile d p

def read (d : Disk) (p : Path) : Except Failure Bytes := do
  match ← d.stat p with
  | .file f => .ok f.content
  | .directory _ => .error (.system .isDirectory)

def names (d : Disk) (l : Location) : List Text :=
  d.nodes.filterMap fun (k, _) => if k ≠ [] ∧ k.dropLast = l then k.getLast? else none

/-- The path of a place as it is written from the root. -/
def locationText (l : Location) : Text := "/" ++ Text.join "/" l

/-- The places of all files below the working directory, from there, in the order of their texts. -/
def files (d : Disk) : List Text :=
  let below := d.nodes.filterMap fun (k, n) =>
    if n.isFile && d.cwd.isPrefixOf k then some (Text.join "/" (k.drop d.cwd.length)) else none
  below.mergeSort Text.le

/-- Binds a place to what is there: a new one comes last. -/
def put (l : Location) (n : Node) : List (Location × Node) → List (Location × Node)
  | [] => [(l, n)]
  | (k, m) :: rest => if k = l then (k, n) :: rest else (k, m) :: put l n rest

theorem mem_put {l : Location} {n : Node} {nodes : List (Location × Node)} {e : Location × Node}
    (h : e ∈ put l n nodes) : e = (l, n) ∨ e ∈ nodes := by
  induction nodes with
  | nil => exact Or.inl (List.mem_singleton.1 h)
  | cons head rest ih =>
    unfold put at h
    split at h
    · next hk =>
      rcases List.mem_cons.1 h with he | he
      · exact Or.inl (he.trans (by rw [hk]))
      · exact Or.inr (List.mem_cons_of_mem _ he)
    · rcases List.mem_cons.1 h with he | he
      · exact Or.inr (he ▸ List.mem_cons_self)
      · exact (ih he).imp_right (List.mem_cons_of_mem _)

theorem nodup_put {l : Location} {n : Node} {nodes : List (Location × Node)}
    (h : (nodes.map Prod.fst).Nodup) : ((put l n nodes).map Prod.fst).Nodup := by
  induction nodes with
  | nil => simp [put]
  | cons head rest ih =>
    obtain ⟨hn, hr⟩ := List.nodup_cons.1 h
    unfold put
    split
    · exact h
    · next hk =>
      refine List.nodup_cons.2 ⟨?_, ih hr⟩
      intro hm
      obtain ⟨e, he, hf⟩ := List.mem_map.1 hm
      rcases mem_put he with rfl | he
      · exact hk hf.symm
      · exact hn (hf ▸ List.mem_map_of_mem he)

def placeDirectory (l : Location) (mode : Nat) (d : Disk) : Disk :=
  { d with
    nodes := put l (.directory mode) d.nodes
    nodup := nodup_put d.nodup
    precedes := by
      intro e he
      rcases mem_put he with rfl | he
      · trivial
      · exact d.precedes e he }

def create (l : Location) (mode : Nat) (d : Disk) : Disk :=
  { d with
    nodes := put l (.file ⟨d.nextSerial, [], d.time, mode⟩) d.nodes
    nextSerial := d.nextSerial + 1
    nodup := nodup_put d.nodup
    precedes := by
      intro e he
      rcases mem_put he with rfl | he
      · exact Nat.lt_succ_self d.nextSerial
      · exact (d.precedes e he).mono (Nat.le_succ d.nextSerial) }

def edit (serial : Nat) (g : File → File) (d : Disk) : Disk :=
  { d with
    nodes := d.nodes.map fun (k, n) => (k, n.edit serial g)
    nodup := by
      have hk : (fun e : Location × Node => (e.1, e.2.edit serial g).1) = Prod.fst := rfl
      rw [List.map_map]
      exact hk ▸ d.nodup
    precedes := by
      intro e he
      obtain ⟨x, hx, rfl⟩ := List.mem_map.1 he
      exact (d.precedes x hx).edit }

def keep (test : Location → Bool) (d : Disk) : Disk :=
  { d with
    nodes := d.nodes.filter fun (k, _) => test k
    nodup := d.nodup.sublist (List.filter_sublist.map _)
    precedes := fun e he => d.precedes e (List.mem_filter.1 he).1 }

def query {α : Type} (f : Disk → Except Failure α) : DiskAct α := fun d =>
  match f d with
  | .ok a => .ok a d
  | .error e => .error e d

/-- Makes one directory where there is nothing. -/
def makeDirectory (mode : Nat) (p : Path) : DiskAct Unit := do
  let l ← query (locate · p)
  match (← get).node? l with
  | some _ => throw (.system .alreadyExists)
  | none => modify (placeDirectory l mode)

/-- Lets a directory that is there already pass. -/
def settle (p : Path) (e : Failure) : DiskAct Unit := do
  if e.isSystem then
    if ← query (isDirectory · p) then return ()
  throw e

/-- The mode of a directory for which none is asked. -/
def usualMode : Nat := 0o755

/-- Makes a directory and those that lead to it, as far as they are missing. -/
def makeDirectories (mode : Nat) (p : Path) : DiskAct Unit := fun d =>
  match makeDirectory mode p d with
  | .ok u d => .ok u d
  | .error e d =>
    if _h : e = .system .notFound ∧ p.parts ≠ [] then
      match makeDirectories usualMode p.parent d with
      | .error e d => .error e d
      | .ok _ d =>
        match makeDirectory mode p d with
        | .ok u d => .ok u d
        | .error e d => settle p e d
    else settle p e d
termination_by p.parts.length
decreasing_by
  have : p.parts.length ≠ 0 := by simpa using _h.2
  simp only [Path.parent, List.length_dropLast]
  omega

def setMode (mode : Nat) (p : Path) : DiskAct Unit := do
  let l ← query (locate · p)
  match (← get).node? l with
  | none => throw (.system .notFound)
  | some (.directory _) => modify (placeDirectory l mode)
  | some (.file f) => modify (edit f.serial fun f => { f with mode })

/-- Opens a file for appending and makes it if it is missing. The result is its serial number. -/
def openAppend (mode : Nat) (p : Path) : DiskAct Nat := do
  let l ← query (locate · p)
  let d ← get
  match d.node? l with
  | some (.directory _) => throw (.system .isDirectory)
  | some (.file f) => return f.serial
  | none =>
    if (d.node? l.dropLast).any Node.isDirectory then
      set (d.create l mode)
      return d.nextSerial
    else throw (.system .notFound)

/-- Adds to the end of a file. Without a name for it the bytes are gone. -/
def append (serial : Nat) (b : Bytes) (d : Disk) : Disk :=
  d.edit serial fun f => { f with content := f.content ++ b, modified := d.time }

/-- The file that is open under a serial number, if it still has a name. -/
def fileOf? (serial : Nat) (d : Disk) : Option File :=
  d.nodes.findSome? fun (_, n) => match n with
    | .file f => if f.serial = serial then some f else none
    | .directory _ => none

def remove (p : Path) : DiskAct Unit := do
  let l ← query (locate · p)
  match (← get).node? l with
  | none => throw (.system .notFound)
  | some (.directory _) => throw (.system .isDirectory)
  | some (.file _) => modify (keep fun k => k ≠ l)

/-- Takes away a directory with everything below it. -/
def removeTree (p : Path) : DiskAct Unit := do
  let l ← query (locate · p)
  match (← get).node? l with
  | none => throw (.system .notFound)
  | some (.file _) => throw (.system .notDirectory)
  | some (.directory _) => modify (keep fun k => !l.isPrefixOf k)

/-- Replaces the content of a file, or makes it together with the directories that lead to it. -/
def write (p : Path) (content : Bytes) (modified : Option Int) (mode : Option Nat) : DiskAct Unit := do
  makeDirectories usualMode p.parent
  let serial ← openAppend 0o644 p
  modify fun d => d.edit serial fun f =>
    { f with content, modified := modified.getD d.time, mode := mode.getD f.mode }

end Disk

end Custody
