import OpenKernel.SeparatedText

/-!
# The tree of the in-memory file system

This module translates the data and the methods of `FileSystem` in
`src/vfs.rs`.  A path is the list of its characters and file contents are lists
of bytes.  A `&mut VfsNode` into the tree is the position of the node (the
child index taken at each level) together with its value; `store` writes
through it.

`write_file`, `mkdir` and `remove` share their shape: they cut the trimmed path
at its last slash, look the parent up and edit the children of the directory
found.  `editParent` is that shape; an edit either changes the children and the
call returns `true`, or it changes nothing and the call returns `false`.
-/

namespace OpenKernel
namespace Vfs

abbrev Str := List Char

abbrev Bytes := List UInt8

inductive VfsNode where
  | File (name : Str) (content : Bytes)
  | Directory (name : Str) (children : List VfsNode)

namespace VfsNode

def name : VfsNode → Str
  | File name _ => name
  | Directory name _ => name

/-- `matches!(child, VfsNode::Directory { .. })`. -/
def isDir : VfsNode → Bool
  | File _ _ => false
  | Directory _ _ => true

/-- The node at a position. -/
def nodeAt : VfsNode → List Nat → Option VfsNode
  | node, [] => some node
  | Directory _ children, idx :: pos =>
      match children[idx]? with
      | some child => nodeAt child pos
      | none => none
  | File _ _, _ :: _ => none

/-- The tree with another node at a position. -/
def replaceAt : VfsNode → List Nat → VfsNode → VfsNode
  | _, [], node' => node'
  | Directory name children, idx :: pos, node' =>
      Directory name (children.modify idx (fun child => child.replaceAt pos node'))
  | File name content, _ :: _, _ => File name content

end VfsNode

structure FileSystem where
  root : VfsNode

/-- A mutable reference into the tree. -/
structure NodeMut where
  pos : List Nat
  node : VfsNode

/-- The loop over `children.iter().enumerate()` for the first child of a name. -/
def findChild (part : Str) (children : List VfsNode) : Option (Nat × VfsNode) :=
  match children.findIdx? (fun child => child.name == part) with
  | some idx => children[idx]?.map (fun child => (idx, child))
  | none => none

/-- The loop `for part in parts` of `find_node_mut`. -/
def walk : VfsNode → List Str → Option NodeMut
  | curr, [] => some ⟨[], curr⟩
  | .Directory _ children, part :: parts =>
      match findChild part children with
      | some (idx, child) =>
          (walk child parts).map (fun r => ⟨idx :: r.pos, r.node⟩)
      | none => none
  | .File _ _, _ :: _ => none

/-- The loop of `write_file` over the children, and the push after it. -/
def writeChild (data : Bytes) (file_name : Str) : List VfsNode → Option (List VfsNode)
  | [] => some [.File file_name data]
  | child :: rest =>
      if child.name == file_name then
        match child with
        | .File name _ => some (.File name data :: rest)
        | .Directory _ _ => none
      else
        (writeChild data file_name rest).map (fun rest' => child :: rest')

/-- The loop of `mkdir` over the children, and the push after it. -/
def mkdirChild (dir_name : Str) (children : List VfsNode) : Option (List VfsNode) :=
  if children.any (fun child => child.name == dir_name) then
    none
  else
    some (children ++ [.Directory dir_name []])

/-- `children.iter().position(..)` and `children.remove(idx)` of `remove`. -/
def removeChild (target_name : Str) (children : List VfsNode) : Option (List VfsNode) :=
  match children.findIdx? (fun child => child.name == target_name) with
  | some idx => some (children.eraseIdx idx)
  | none => none

namespace FileSystem

def findNodeMut (fs : FileSystem) (path : Str) : Option NodeMut :=
  let clean_path := trimMatches '/' path
  if clean_path.isEmpty then
    some ⟨[], fs.root⟩
  else
    let parts := (clean_path.splitOn '/').filter (fun s => !s.isEmpty)
    walk fs.root parts

/-- Assignment through a mutable reference. -/
def store (fs : FileSystem) (r : NodeMut) (node' : VfsNode) : FileSystem :=
  ⟨fs.root.replaceAt r.pos node'⟩

def listDirectory (fs : FileSystem) (path : Str) : Option (List (Str × Bool)) :=
  match fs.findNodeMut path with
  | some ⟨_, .Directory _ children⟩ =>
      some (children.map (fun child => (child.name, child.isDir)))
  | _ => none

def readFile (fs : FileSystem) (path : Str) : Option Bytes :=
  match fs.findNodeMut path with
  | some ⟨_, .File _ content⟩ => some content
  | _ => none

/-- The common shape of `write_file`, `mkdir` and `remove`. -/
def editParent
    (fs : FileSystem) (path : Str)
    (edit : Str → List VfsNode → Option (List VfsNode)) :
    Bool × FileSystem :=
  let clean_path := trimMatches '/' path
  if clean_path.isEmpty then
    (false, fs)
  else
    let (parent_path, name) := splitAtLast '/' clean_path
    match fs.findNodeMut parent_path with
    | some ⟨pos, .Directory dir children⟩ =>
        match edit name children with
        | some children' =>
            (true, fs.store ⟨pos, .Directory dir children⟩ (.Directory dir children'))
        | none => (false, fs)
    | _ => (false, fs)

def writeFile (fs : FileSystem) (path : Str) (data : Bytes) : Bool × FileSystem :=
  fs.editParent path (writeChild data)

def mkdir (fs : FileSystem) (path : Str) : Bool × FileSystem :=
  fs.editParent path mkdirChild

def remove (fs : FileSystem) (path : Str) : Bool × FileSystem :=
  fs.editParent path removeChild

end FileSystem

/-- `str::as_bytes`. -/
def asBytes (s : Str) : Bytes :=
  s.flatMap String.utf8EncodeChar

/-- The root that `FileSystem::new` starts from. -/
def emptyFileSystem : FileSystem :=
  ⟨.Directory ['/'] []⟩

/-- `init_default_structure`. -/
def initDefaultStructure (fs : FileSystem) : FileSystem :=
  let fs := (fs.mkdir "config".toList).2
  let fs := (fs.mkdir "bin".toList).2
  let fs := (fs.mkdir "home".toList).2
  let fs := (fs.writeFile "config/system.conf".toList
    (asBytes "[system]\nos_name = open_kernel\nversion = 0.1.0\narch = x86_64\n".toList)).2
  let fs := (fs.writeFile "readme.txt".toList
    (asBytes "Welcome to open_kernel OS in-memory VFS!\n".toList)).2
  (fs.writeFile "bin/init".toList
    (asBytes "#!/bin/sh\necho booting open_kernel...\n".toList)).2

/-- `FileSystem::new`. -/
def FileSystem.new : FileSystem :=
  initDefaultStructure emptyFileSystem

end Vfs
end OpenKernel
