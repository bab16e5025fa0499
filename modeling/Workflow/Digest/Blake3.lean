import Workflow.Text.Utf8

/-!
# BLAKE3 digests

An input is cut into chunks of 1024 octets. Each chunk is compressed block by block into a chaining
value, and chaining values are joined pairwise in a binary tree whose left branches are full. The
digest is the first half of the root's output.
-/

namespace Workflow.Blake3

/-- The initial chaining value. -/
def initial : Array UInt32 :=
  #[0x6A09E667, 0xBB67AE85, 0x3C6EF372, 0xA54FF53A, 0x510E527F, 0x9B05688C, 0x1F83D9AB, 0x5BE0CD19]

/-- The order in which one round passes the message words to the next. -/
def schedule : List Nat :=
  [2, 6, 3, 10, 7, 0, 4, 13, 1, 11, 12, 5, 9, 14, 15, 8]

/-- The word at a position; positions run below the size wherever this is used. -/
def word (ws : Array UInt32) (i : Nat) : UInt32 :=
  ws.getD i 0

/-- Rotate a word to the right. -/
def rotateRight (w : UInt32) (n : UInt32) : UInt32 :=
  (w >>> n) ||| (w <<< (32 - n))

/-- Mix two message words into four words of the state. -/
def mix (s : Array UInt32) (a b c d : Nat) (x y : UInt32) : Array UInt32 :=
  let wa := word s a + word s b + x
  let wd := rotateRight (word s d ^^^ wa) 16
  let wc := word s c + wd
  let wb := rotateRight (word s b ^^^ wc) 12
  let va := wa + wb + y
  let vd := rotateRight (wd ^^^ va) 8
  let vc := wc + vd
  let vb := rotateRight (wb ^^^ vc) 7
  (((s.setIfInBounds a va).setIfInBounds b vb).setIfInBounds c vc).setIfInBounds d vd

/-- Mix the columns and then the diagonals. -/
def mixRound (s m : Array UInt32) : Array UInt32 :=
  let s := mix s 0 4 8 12 (word m 0) (word m 1)
  let s := mix s 1 5 9 13 (word m 2) (word m 3)
  let s := mix s 2 6 10 14 (word m 4) (word m 5)
  let s := mix s 3 7 11 15 (word m 6) (word m 7)
  let s := mix s 0 5 10 15 (word m 8) (word m 9)
  let s := mix s 1 6 11 12 (word m 10) (word m 11)
  let s := mix s 2 7 8 13 (word m 12) (word m 13)
  mix s 3 4 9 14 (word m 14) (word m 15)

/-- Mix the given number of rounds, passing the message words on between them. -/
def mixRounds : Nat → Array UInt32 → Array UInt32 → Array UInt32
  | 0, s, _ => s
  | n + 1, s, m => mixRounds n (mixRound s m) (schedule.map (word m)).toArray

/-- An input of the compression function. -/
structure Node where
  /-- The chaining value, eight words. -/
  chaining : Array UInt32
  /-- The message block, sixteen words. -/
  block : Array UInt32
  /-- The number of the chunk, zero in branches. -/
  counter : Nat
  /-- The number of octets in the block. -/
  size : Nat
  /-- The flags that set the node's place apart. -/
  flags : UInt32

/-- Mark of the first block of a chunk. -/
def chunkStart : UInt32 := 1
/-- Mark of the last block of a chunk. -/
def chunkEnd : UInt32 := 2
/-- Mark of a branch. -/
def branch : UInt32 := 4
/-- Mark of the root. -/
def root : UInt32 := 8

/-- The eight words that a node compresses to. -/
def Node.compress (n : Node) : Array UInt32 :=
  let counter := UInt64.ofNat n.counter
  let s := n.chaining ++ initial.take 4 ++
    #[counter.toUInt32, (counter >>> 32).toUInt32, UInt32.ofNat n.size, n.flags]
  let s := mixRounds 7 s n.block
  ((List.range 8).map fun i => word s i ^^^ word s (i + 8)).toArray

/-- The words of a block, lowest octet first, filled up with zeros. -/
def wordsOfBlock (block : Bytes) : Array UInt32 :=
  let octets := block.toArray
  let octet (i : Nat) : UInt32 := (octets.getD i 0).toUInt32
  ((List.range 16).map fun i =>
    octet (4 * i) ||| (octet (4 * i + 1) <<< 8) ||| (octet (4 * i + 2) <<< 16) |||
      (octet (4 * i + 3) <<< 24)).toArray

/-- Cut a sequence into parts of a positive size; an empty sequence has one empty part. -/
def cut (size : Nat) : Nat → Bytes → List Bytes
  | 0, bytes => [bytes]
  | fuel + 1, bytes =>
    if bytes.length ≤ size then [bytes]
    else bytes.take size :: cut size fuel (bytes.drop size)

/-- The node of the last block of a chunk, the earlier blocks compressed. -/
def chunkNode (counter : Nat) (chaining : Array UInt32) (flags : UInt32) : List Bytes → Node
  | [] => ⟨chaining, wordsOfBlock [], counter, 0, flags ||| chunkEnd⟩
  | [block] => ⟨chaining, wordsOfBlock block, counter, block.length, flags ||| chunkEnd⟩
  | block :: rest =>
    let node : Node := ⟨chaining, wordsOfBlock block, counter, block.length, flags⟩
    chunkNode counter node.compress 0 rest

/-- The largest power of two below a number greater than one. -/
def leftSize (n : Nat) : Nat :=
  Nat.pow 2 (n - 1).log2

/-- The node over a run of chunks that starts at a position. -/
def treeNode : Nat → Nat → List Bytes → Node
  | 0, counter, _ => chunkNode counter initial chunkStart []
  | _ + 1, counter, [] => chunkNode counter initial chunkStart []
  | _ + 1, counter, [chunk] => chunkNode counter initial chunkStart (cut 64 16 chunk)
  | fuel + 1, counter, chunks =>
    let left := leftSize chunks.length
    let first := treeNode fuel counter (chunks.take left)
    let second := treeNode fuel (counter + left) (chunks.drop left)
    ⟨initial, first.compress ++ second.compress, 0, 64, branch⟩

/-- The octets of a word, lowest first. -/
def octetsOfWord (w : UInt32) : Bytes :=
  [w.toUInt8, (w >>> 8).toUInt8, (w >>> 16).toUInt8, (w >>> 24).toUInt8]

/-- The digest of an octet sequence, thirty-two octets. -/
def digest (bytes : Bytes) : Bytes :=
  let chunks := cut 1024 bytes.length bytes
  let node := treeNode chunks.length 0 chunks
  { node with flags := node.flags ||| root }.compress.toList.flatMap octetsOfWord

end Workflow.Blake3
