/-
  `Trie`: a path-compressed binary trie of prefixes, each with a key, a mask of leading ones and possibly a
  value.

  A node is known by its key and mask, which never change, so that pair is its `Handle`; a null pointer is
  `null`.  Walking up by `parent` pointers is a list of `Frame`s, the nearest parent first.  `none` is a failed
  assertion or a panic, or a loop that does not end.
-/
import NvpSim.Lib.Prefix

namespace NvpSim.Base

open NvpSim.Lib

/-- `Trie::Node *`. -/
inductive Trie (n : Nat) (V : Type) where
  | null
  | node (key mask : BitVec n) (value : Option V) (kid0 kid1 : Trie n V)

namespace Trie

variable {n : Nat} {V : Type}

/-- A node as its handle: key and mask. -/
abbrev Handle (n : Nat) := BitVec n × BitVec n

/-- `Trie()`: only the head, with an empty mask. -/
def empty : Trie n V := .node 0 0 none .null .null

/-- Whether there is a node. -/
def isNode : Trie n V → Bool
  | null => false
  | node _ _ _ _ _ => true

/-- `node->key`. -/
def key : Trie n V → BitVec n
  | null => 0
  | node key _ _ _ _ => key

/-- `node->mask`. -/
def mask : Trie n V → BitVec n
  | null => 0
  | node _ mask _ _ _ => mask

/-- `node->value`. -/
def value : Trie n V → Option V
  | null => none
  | node _ _ value _ _ => value

/-- `Node(key, mask, val)`: the key is cut off after the mask. -/
def newNode (key mask : BitVec n) (val : Option V) (kid0 kid1 : Trie n V) : Trie n V :=
  .node (key &&& mask) mask val kid0 kid1

/-- `node && node->matches(test)`. -/
def matchesKey (t : Trie n V) (test : BitVec n) : Bool := t.isNode && test &&& t.mask == t.key

def goesAfter (kid : Trie n V) (key newMask : BitVec n) : Bool :=
  kid.isNode && kid.matchesKey key && kid.mask &&& newMask == kid.mask

def extendMask (orig : BitVec n) : BitVec n := orig ||| orig >>> 1 ||| BitVec.twoPow n (n - 1)

/-- `lookupHandle(key)`, from a node on: the first node with a value, and that value. -/
def lookupHandle : Trie n V → BitVec n → Option (Handle n × V)
  | null, _ => none
  | node key mask value kid0 kid1, test =>
    match value with
    | some v => some ((key, mask), v)
    | none =>
      if kid0.matchesKey test then kid0.lookupHandle test
      else if kid1.matchesKey test then kid1.lookupHandle test
      else none

def lookup (t : Trie n V) (test : BitVec n) : Option V := (t.lookupHandle test).map fun r => r.2

/-! ## Insertion -/

/-- The mask of a prefix of the given width. -/
def widthMask (n width : Nat) : BitVec n :=
  if width < n then BitVec.allOnes n <<< (n - width) else BitVec.allOnes n

/-- The do-while loop of `insert`: down the leg until something does not match or we run out of
    bits.  The mask before the last step. -/
def walkDown (key newMask kidKey : BitVec n) : Nat → BitVec n → Option (BitVec n)
  | 0, _ => none
  | fuel + 1, lastMask =>
    let curMask := extendMask lastMask
    if key &&& curMask ≠ kidKey &&& curMask ∨ lastMask = newMask then some lastMask
    else walkDown key newMask kidKey fuel curMask

/-- One round of the for loop of `insert`, at a kid of the node with mask `nodeMask`: the new kid, or
    `some null` if this is not the right leg. -/
def insertLeg (key newMask : BitVec n) (val : V) (nodeMask : BitVec n) (kid : Trie n V) : Option (Trie n V) :=
  if kid.isNode then
    (walkDown key newMask kid.key (n + 1) nodeMask).map fun curMask =>
      if curMask = nodeMask then null
      -- if we ran out of bits, the value goes right here
      else if curMask = newMask then newNode key curMask (some val) kid null
      else newNode key curMask none kid (newNode key newMask (some val) null null)
  else some (newNode key newMask (some val) null null)

/-- `insert` at the node that the walk past the smaller masks has reached. -/
def insertAt (key newMask : BitVec n) (val : V) (nodeKey nodeMask : BitVec n) (value : Option V)
    (kid0 kid1 : Trie n V) : Option (Trie n V) :=
  if nodeMask = newMask then
    -- we are already where the value needs to be
    match value with
    | none => some (.node nodeKey nodeMask (some val) kid0 kid1)
    | some _ => none
  else
    (insertLeg key newMask val nodeMask kid0).bind fun leg0 =>
      if leg0.isNode then some (.node nodeKey nodeMask value leg0 kid1)
      else (insertLeg key newMask val nodeMask kid1).bind fun leg1 =>
        if leg1.isNode then some (.node nodeKey nodeMask value kid0 leg1) else none

/-- `insert`, once key and mask are tidied up: walk past all nodes the new one comes after. -/
def insertMasked (key newMask : BitVec n) (val : V) : Trie n V → Option (Trie n V)
  | null => none
  | node nodeKey nodeMask value kid0 kid1 =>
    if kid0.goesAfter key newMask then
      (kid0.insertMasked key newMask val).map fun kid0 => .node nodeKey nodeMask value kid0 kid1
    else if kid1.goesAfter key newMask then
      (kid1.insertMasked key newMask val).map fun kid1 => .node nodeKey nodeMask value kid0 kid1
    else insertAt key newMask val nodeKey nodeMask value kid0 kid1

def insert (t : Trie n V) (key : BitVec n) (width : Nat) (val : V) : Option (Trie n V) :=
  t.insertMasked (key &&& widthMask n width) (widthMask n width) val

/-! ## Removal -/

/-- A parent, and which of its kids we are; the other kid is `sibling`. -/
structure Frame (n : Nat) (V : Type) where
  key : BitVec n
  mask : BitVec n
  value : Option V
  second : Bool
  sibling : Trie n V

/-- The parent with a kid in its place. -/
def Frame.parent (f : Frame n V) (kid : Trie n V) : Trie n V :=
  if f.second then .node f.key f.mask f.value f.sibling kid
  else .node f.key f.mask f.value kid f.sibling

/-- The whole trie around a node. -/
def plug (t : Trie n V) : List (Frame n V) → Trie n V
  | [] => t
  | f :: fs => plug (f.parent t) fs

/-- The node of a handle, and its parents. -/
def locate (h : Handle n) : Trie n V → List (Frame n V) → Option (Trie n V × List (Frame n V))
  | null, _ => none
  | node key mask value kid0 kid1, fs =>
    if (key, mask) = h then some (.node key mask value kid0 kid1, fs)
    else (locate h kid0 (⟨key, mask, value, false, kid1⟩ :: fs)).or
      (locate h kid1 (⟨key, mask, value, true, kid0⟩ :: fs))

/-- The parent after we gave up our place to `kid`: a lone kid is `kids[0]`. -/
def Frame.replace (f : Frame n V) (kid : Trie n V) : Trie n V :=
  let kid0 := if f.second then f.sibling else kid
  let kid1 := if f.second then kid else f.sibling
  if kid1.isNode && !kid0.isNode then .node f.key f.mask f.value kid1 null
  else .node f.key f.mask f.value kid0 kid1

/-- Whether `kids[1]` is there. -/
def full : Trie n V → Bool
  | null => false
  | node _ _ _ _ kid1 => kid1.isNode

/-- `node->kids[0]`. -/
def firstKid : Trie n V → Trie n V
  | null => null
  | node _ _ _ kid0 _ => kid0

/-- `remove(handle)` for a node without `kids[1]`: splice it out; a parent that has less than two kids
    and no cargo and is not the root goes too. -/
def splice (kid : Trie n V) : List (Frame n V) → Option (Trie n V)
  | [] => none
  | f :: fs =>
    let parent := f.replace kid
    if !parent.full && f.value.isNone && !fs.isEmpty then splice parent.firstKid fs
    else some (plug parent fs)

def remove (t : Trie n V) (h : Handle n) : Option (Trie n V) :=
  (locate h t []).bind fun (t, fs) =>
    match t with
    | null => none
    | node key mask value kid0 kid1 =>
      if kid1.isNode then
        if value.isSome then some (plug (.node key mask none kid0 kid1) fs) else none
      else splice kid0 fs

end Trie

end NvpSim.Base
