import Sentrix.Lib.SparseMerkle
import Sentrix.Core.StateTrie

/-!
The state trie itself: insertion, lookup and deletion over a table of nodes addressed by
their hashes. The loops of the code keep the siblings they pass in a vector and work it
off backwards; here that vector is the recursion's stack. A row holds the text its hash
was computed from, so a leaf's row has the value the code keeps in a second table under
the same hash.
-/
namespace SentrixCore
open HashTable SentrixPrimitives SparseMerkle

abbrev TrieNode := Preimage Bytes Bytes Bytes
abbrev TrieTree := Tree Bytes Bytes

/-- What is hashed; the sentinel of an empty leaf slot is 32 zeros. -/
def nodeText : TrieNode → Bytes
  | .absent => List.replicate 32 0
  | .leaf key value => 0 :: (key ++ value)
  | .branch left right => 1 :: (left ++ right)

def readNode : Bytes → Option TrieNode
  | 0 :: rest => some (.leaf (rest.take 32) (rest.drop 32))
  | 1 :: rest => some (.branch (rest.take 32) (rest.drop 32))
  | _ => none

/-- Most significant bit of the first byte first. -/
def keyBits (key : Bytes) : List Bool :=
  key.flatMap fun byte => (List.range 8).map fun i => byte.toNat.testBit (7 - i)

section
variable (w : Wire) (b3 : Bytes → Bytes)

/-- BLAKE3, the parameter `b3`, for leaves; SHA-256 for the rest. -/
def nodeHash : TrieNode → Bytes
  | .leaf key value => b3 (nodeText (.leaf key value))
  | .branch left right => digest w (nodeText (.branch left right))
  | .absent => digest w (nodeText .absent)

def emptyHash : Nat → Bytes :=
  Tree.emptyDigest (nodeHash w b3)

def missingNode (hash : Bytes) : SentrixError :=
  .internal ("trie: missing node " ++ hexEncode hash)

def getNode (nodes : Table Bytes Bytes) (hash : Bytes) : Except SentrixError TrieNode :=
  match (nodes.lookup hash).bind readNode with
  | some node => .ok node
  | none => .error (missingNode hash)

def putNode (node : TrieNode) (nodes : Table Bytes Bytes) : Bytes × Table Bytes Bytes :=
  (nodeHash w b3 node, nodes.insert (nodeHash w b3 node) (nodeText node))

def putBranch (b : Bool) (child sibling : Bytes) (nodes : Table Bytes Bytes) :
    Bytes × Table Bytes Bytes :=
  putNode w b3 (.beside b child sibling) nodes

def splitLeaf (key value other : Bytes) : List Bool → List Bool → Table Bytes Bytes →
    Except SentrixError (Bytes × Table Bytes Bytes)
  | b :: rest, b' :: rest', nodes =>
    if b = b' then do
      let (child, nodes) ← splitLeaf key value other rest rest' nodes
      .ok (putBranch w b3 b child (emptyHash w b3 rest.length) nodes)
    else
      let (leaf, nodes) := putNode w b3 (.leaf key value) nodes
      .ok (putBranch w b3 b leaf other nodes)
  | _, _, _ => .error (.internal "trie: two keys are identical")

def insertAt (key value : Bytes) (bits : List Bool) (depth : Nat) (current : Bytes)
    (nodes : Table Bytes Bytes) : Except SentrixError (Bytes × Table Bytes Bytes) :=
  if current = emptyHash w b3 bits.length then
    .ok (putNode w b3 (.leaf key value) nodes)
  else
    match getNode nodes current with
    | .error e => .error e
    | .ok (.leaf k _) =>
      if k = key then .ok (putNode w b3 (.leaf key value) nodes)
      else splitLeaf w b3 key value current bits ((keyBits k).drop depth) nodes
    | .ok (.branch left right) =>
      match bits with
      | [] => .error (.internal
          "trie: corrupt tree — Internal node at depth 256 (key space exhausted)")
      | b :: rest => do
        let (child, nodes) ← insertAt key value rest (depth + 1) (if b then right else left) nodes
        .ok (putBranch w b3 b child (if b then left else right) nodes)
    | .ok .absent => .error (missingNode current)

def getAt (key : Bytes) (bits : List Bool) (current : Bytes) (nodes : Table Bytes Bytes) :
    Except SentrixError (Option Bytes) :=
  if current = emptyHash w b3 bits.length then .ok none
  else
    match getNode nodes current with
    | .error e => .error e
    | .ok (.leaf k value) => .ok (if k = key then some value else none)
    | .ok (.branch left right) =>
      match bits with
      -- the code indexes past the key here, which no tree of a run makes it do
      | [] => .ok none
      | b :: rest => getAt key rest (if b then right else left) nodes
    | .ok .absent => .error (missingNode current)

/-- What the part below the current level has become. -/
inductive Up where
  | empty
  | leaf (hash : Bytes)
  | branch (hash : Bytes)
  deriving DecidableEq

def Up.hash (levels : Nat) : Up → Bytes
  | .empty => emptyHash w b3 levels
  | .leaf h | .branch h => h

def isLeaf (nodes : Table Bytes Bytes) (hash : Bytes) : Bool :=
  match getNode nodes hash with
  | .ok (.leaf _ _) => true
  | _ => false

def climb (canonical b : Bool) (levels : Nat) (up : Up) (sibling : Bytes)
    (nodes : Table Bytes Bytes) : Up × Table Bytes Bytes :=
  let lone := sibling = emptyHash w b3 levels
  let joined := putBranch w b3 b (up.hash w b3 levels) sibling nodes
  let branch : Up × Table Bytes Bytes := (.branch joined.1, joined.2)
  if canonical then
    match up with
    | .empty =>
      if lone then (.empty, nodes)
      else if isLeaf nodes sibling then (.leaf sibling, nodes)
      else branch
    | .leaf h => if lone then (.leaf h, nodes) else branch
    | .branch _ => branch
  else if up.hash w b3 levels = emptyHash w b3 levels ∧ lone then (.empty, nodes)
  else branch

/-- Nothing if the key is absent. -/
def deleteAt (canonical : Bool) (key : Bytes) (bits : List Bool) (current : Bytes)
    (nodes : Table Bytes Bytes) : Except SentrixError (Option (Up × Table Bytes Bytes)) :=
  if current = emptyHash w b3 bits.length then .ok none
  else
    match getNode nodes current with
    | .error e => .error e
    | .ok (.leaf k _) => .ok (if k = key then some (.empty, nodes) else none)
    | .ok (.branch left right) =>
      match bits with
      | [] => .error (.internal "trie: corrupt tree — Internal node at depth 256")
      | b :: rest => do
        let below ← deleteAt canonical key rest (if b then right else left) nodes
        .ok (below.map fun (up, nodes) =>
          climb w b3 canonical b rest.length up (if b then left else right) nodes)
    | .ok .absent => .error (missingNode current)

end

namespace SentrixTrie
variable (w : Wire) (b3 : Bytes → Bytes)

def insert (key value : Bytes) : EStateM SentrixError SentrixTrie Unit := fun t =>
  match insertAt w b3 key value (keyBits key) 0 t.root t.nodes with
  | .ok (root, nodes) => .ok () { t with root, nodes }
  | .error e => .error e t

def get (t : SentrixTrie) (key : Bytes) : Except SentrixError (Option Bytes) :=
  getAt w b3 key (keyBits key) t.root t.nodes

def delete (key : Bytes) : EStateM SentrixError SentrixTrie Unit := fun t =>
  match deleteAt w b3 t.canonicalDelete key (keyBits key) t.root t.nodes with
  | .ok (some (up, nodes)) => .ok () { t with root := up.hash w b3 (keyBits key).length, nodes }
  | .ok none => .ok () t
  | .error e => .error e t

def commit (version : Nat) : EStateM SentrixError SentrixTrie Bytes := fun t =>
  .ok t.root { t with version }

end SentrixTrie

/-- The trie's operations as the block executor uses them. -/
def sparseOps (w : Wire) (b3 : Bytes → Bytes)
    (contractsHash : SentrixTokens.ContractRegistry → Bytes)
    (nftHash : SentrixTokens.NftRegistry → Bytes) : TrieOps where
  insert := SentrixTrie.insert w b3
  delete := SentrixTrie.delete w b3
  commit := SentrixTrie.commit
  contractsHash
  nftHash

end SentrixCore
