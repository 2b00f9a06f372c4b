import Bindery.Checkout.Tree
import Bindery.Path
import Bindery.Text.Utf8

/-!
# Checkouts

A checkout is a tree of files, given by the location of each file and its content, together with the
folders that were made on their own; these make a tree. Reading and writing follow the rules of a file
system: a file is written only into a folder that exists, and a folder is neither read nor written.
-/

namespace Bindery

/-- What a file holds: a text, or bytes that are not UTF-8. -/
inductive Content where
  | text (text : String)
  | binary (bytes : List UInt8)
deriving DecidableEq, Repr, Inhabited

def Content.ofBytes (bytes : List UInt8) : Content :=
  match Text.decodeUtf8 bytes with
  | .ok decoded => .text decoded
  | .error _ => .binary bytes

/-- Why a file or folder could not be accessed. -/
inductive AccessFailure where
  /-- there is nothing at the path -/
  | missing
  /-- a folder stands where a file is needed -/
  | folder
  /-- a file stands where a folder is needed -/
  | notFolder
  /-- a file stands where a folder is to be made -/
  | occupied
  /-- the file is not UTF-8 -/
  | notText
deriving DecidableEq, Repr

/-- What the operating system says of the failure. -/
def AccessFailure.message : AccessFailure → String
  | .missing => "No such file or directory (os error 2)"
  | .folder => "Is a directory (os error 21)"
  | .notFolder => "Not a directory (os error 20)"
  | .occupied => "File exists (os error 17)"
  | .notText => "stream did not contain valid UTF-8"

/-- Files and folders below one folder. -/
structure Checkout where
  files : List (Location × Content)
  folders : List Location
  isTree : IsTree (files.map Prod.fst) folders

/-- The location that one more part of a path leads to. Steps that lead out of the checkout are kept
as names: a slash for the top of the file system, and two dots for a folder further up. -/
def Location.enter (location : Location) : Path.Part → Location
  | .root => ["/"]
  | .here => location
  | .up =>
      match location.getLast? with
      | some "/" => location
      | none | some ".." => location ++ [".."]
      | some _ => location.dropLast
  | .name name => location ++ [name]

def Path.location (path : Path) : Location := path.parts.foldl Location.enter []

def Location.path : Location → Path
  | "/" :: names => ⟨"/" ++ Text.join "/" names⟩
  | names => ⟨Text.join "/" names⟩

namespace Checkout

def empty : Checkout := ⟨[], [], IsTree.nil⟩

instance : Inhabited Checkout := ⟨empty⟩

def content? (checkout : Checkout) (location : Location) : Option Content :=
  checkout.files.lookup location

/-- Whether there is a folder: the top, one that was made, or one that has something in it. -/
def isFolder (checkout : Checkout) (location : Location) : Bool :=
  location.isEmpty || checkout.folders.any location.isPrefixOf
    || checkout.files.any fun (file, _) => location.isPrefixOf file && location ≠ file

def isFile (checkout : Checkout) (location : Location) : Bool :=
  (checkout.content? location).isSome

/-- Why nothing is found at a location: a file stands on the way to it, or nothing is there. -/
def absence (checkout : Checkout) (location : Location) : AccessFailure :=
  if checkout.files.any fun (file, _) => file.isPrefixOf location && file ≠ location then .notFolder
  else .missing

/-- There is a file exactly at the locations that are listed. -/
theorem isFile_iff {checkout : Checkout} {location : Location} :
    checkout.isFile location ↔ location ∈ checkout.files.map Prod.fst := by
  unfold isFile content?
  induction checkout.files with
  | nil => simp
  | cons entry rest ih =>
      obtain ⟨file, content⟩ := entry
      rw [List.lookup_cons]
      by_cases heq : location = file
      · simp [heq]
      · have hne : (location == file) = false := by simpa using heq
        simp [hne, heq, ih]

/-- What is no folder is neither the top nor on the way to a folder or to another file. -/
theorem isFolder_eq_false_iff {checkout : Checkout} {location : Location} :
    checkout.isFolder location = false ↔ location ≠ []
      ∧ (∀ folder ∈ checkout.folders, ¬ location <+: folder)
      ∧ ∀ file ∈ checkout.files.map Prod.fst, location <+: file → location = file := by
  simp [isFolder, and_assoc]

/-- Nothing lies below a file exactly if no file is on the way to it. -/
theorem absence_eq_missing_iff {checkout : Checkout} {location : Location} :
    checkout.absence location = .missing ↔
      ∀ file ∈ checkout.files.map Prod.fst, file <+: location → file = location := by
  simp [absence]

/-- Whether nothing stands at a location, nor a file on the way to it. -/
def isFree (checkout : Checkout) (location : Location) : Bool :=
  !checkout.isFile location && checkout.absence location = .missing

/-- No file is on the way to a free location. -/
theorem not_prefix_of_isFree {checkout : Checkout} {location : Location}
    (h : checkout.isFree location) :
    ∀ file ∈ checkout.files.map Prod.fst, ¬ file <+: location := by
  simp only [isFree, Bool.and_eq_true, Bool.not_eq_true', decide_eq_true_eq] at h
  intro file hmem hprefix
  have heq := absence_eq_missing_iff.mp h.2 file hmem hprefix
  rw [heq, ← isFile_iff, h.1] at hmem
  cases hmem

/-- The text of the file at a location. -/
def readAt (checkout : Checkout) (location : Location) : Except AccessFailure String :=
  match checkout.content? location with
  | some (.text text) => .ok text
  | some (.binary _) => .error .notText
  | none => .error (if checkout.isFolder location then .folder else checkout.absence location)

/-- The text of the file at a path. -/
def read (checkout : Checkout) (path : Path) : Except AccessFailure String :=
  if path.isEmpty then .error .missing else checkout.readAt path.location

/-- The checkout with the content of a file replaced. -/
def replace (checkout : Checkout) (location : Location) (content : Content) : Checkout :=
  let change (file : Location × Content) : Location × Content :=
    (file.1, if file.1 = location then content else file.2)
  { checkout with
    files := checkout.files.map change
    isTree := by
      rw [List.map_map]
      exact checkout.isTree }

/-- The checkout with a file's content set; a new file comes last. Nothing is set where a folder
stands, below a file, or where no path leads. -/
def set (checkout : Checkout) (location : Location) (content : Content) : Checkout :=
  if checkout.isFile location then checkout.replace location content
  else if h : location.isNamed ∧ checkout.isFolder location = false ∧ checkout.isFree location then
    { checkout with
      files := checkout.files ++ [(location, content)]
      isTree := by
        rw [List.map_append]
        obtain ⟨hne, hfolders, hbelow⟩ := isFolder_eq_false_iff.mp h.2.1
        have habove := not_prefix_of_isFree h.2.2
        refine checkout.isTree.append_file hne h.1 hfolders habove fun file hmem hprefix => ?_
        have heq := hbelow file hmem hprefix
        exact habove file hmem (heq ▸ List.prefix_refl location) }
  else checkout

/-- The checkout after a text is written to a location. -/
def writeAt (checkout : Checkout) (location : Location) (text : String) :
    Except AccessFailure Checkout :=
  if checkout.isFolder location then .error .folder
  else if checkout.isFile location || checkout.isFolder location.dropLast then
    .ok (checkout.set location (.text text))
  else .error (checkout.absence location)

/-- The checkout after a text is written to the file at a path. -/
def write (checkout : Checkout) (path : Path) (text : String) : Except AccessFailure Checkout :=
  if path.isEmpty then .error .missing else checkout.writeAt path.location text

/-- The checkout with a folder and those above it. None is made where a file stands or below one. -/
def addFolder (checkout : Checkout) (location : Location) : Checkout :=
  if h : checkout.isFree location then
    if checkout.isFolder location then checkout
    else
      { checkout with
        folders := checkout.folders ++ [location]
        isTree := checkout.isTree.append_folder (not_prefix_of_isFree h) }
  else checkout

/-- The checkout after a folder and those above it are made, where they do not exist. -/
def makeFolder (checkout : Checkout) (location : Location) : Except AccessFailure Checkout :=
  if checkout.isFile location then .error .occupied
  else
    match checkout.absence location with
    | .missing => .ok (checkout.addFolder location)
    | failure => .error failure

/-- The checkout with only the locations that are to be kept. -/
def filter (checkout : Checkout) (keep : Location → Bool) : Checkout where
  files := checkout.files.filter fun file => keep file.1
  folders := checkout.folders.filter keep
  isTree := checkout.isTree.sublist (List.filter_sublist.map Prod.fst) List.filter_sublist

/-- The checkout without a file or a folder and all below it. What held it stays a folder. -/
def remove (checkout : Checkout) (location : Location) : Checkout :=
  (checkout.filter fun other => !location.isPrefixOf other).addFolder location.dropLast

/-- The locations of the files below a folder, relative to it. -/
def below (checkout : Checkout) (folder : Location) : List Location :=
  checkout.files.filterMap fun (file, _) =>
    if folder.isPrefixOf file && folder ≠ file then some (file.drop folder.length) else none

/-- The names of the files that lie directly in a folder. -/
def fileNames (checkout : Checkout) (folder : Location) : List String :=
  (checkout.below folder).filterMap fun
    | [name] => some name
    | _ => none

/-- Why a location cannot be entered as a folder, if it cannot. -/
def obstacle? (checkout : Checkout) (location : Location) : Option AccessFailure :=
  if checkout.isFolder location then none
  else if checkout.isFile location then some .notFolder
  else some (checkout.absence location)

/-- The location of the folder at a path. -/
def folderAt (checkout : Checkout) (path : Path) : Except AccessFailure Location :=
  if path.isEmpty then .error .missing
  else
    match checkout.obstacle? path.location with
    | none => .ok path.location
    | some failure => .error failure

end Checkout

end Bindery
