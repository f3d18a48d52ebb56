import ViewState.Text.Utf8

/-!
Hash functions, and the hash function BLAKE3 with its keyed and key-derivation forms, for digests of
32 bytes. The input is cut into chunks of 1024 bytes, each chunk into blocks of 64 bytes that are
compressed one after the other, and the chunks are joined in pairs, round after round, into one.
-/
namespace ViewState

/-- The 32 bytes that a hash function gives. -/
abbrev Digest : Type := Vector UInt8 32

/-- What the library asks of a hash function. Statements about tickets and envelopes hold for every
one, also for one with collisions. -/
structure Hash where
  digest : List UInt8 → Digest
  keyed : (key : Digest) → List UInt8 → Digest
  deriveKey : (context : String) → (material : List UInt8) → Digest

end ViewState

namespace ViewState.Blake3

abbrev Words (n : Nat) : Type := Vector UInt32 n

def startingWords : Words 8 :=
  #v[0x6a09e667, 0xbb67ae85, 0x3c6ef372, 0xa54ff53a, 0x510e527f, 0x9b05688c, 0x1f83d9ab, 0x5be0cd19]

def permutation : Vector (Fin 16) 16 := #v[2, 6, 3, 10, 7, 0, 4, 13, 1, 11, 12, 5, 9, 14, 15, 8]

def chunkStart : UInt32 := 1
def chunkEnd : UInt32 := 2
def parentNode : UInt32 := 4
def rootNode : UInt32 := 8
def keyedHash : UInt32 := 16
def keyContext : UInt32 := 32
def keyMaterial : UInt32 := 64

def rotateRight (w n : UInt32) : UInt32 := w >>> n ||| w <<< (32 - n)

/-- Mixes two words of a block into four words of the state. -/
def mix (v : Words 16) (a b c d : Fin 16) (x y : UInt32) : Words 16 :=
  let a₁ := v[a] + v[b] + x
  let d₁ := rotateRight (v[d] ^^^ a₁) 16
  let c₁ := v[c] + d₁
  let b₁ := rotateRight (v[b] ^^^ c₁) 12
  let a₂ := a₁ + b₁ + y
  let d₂ := rotateRight (d₁ ^^^ a₂) 8
  let c₂ := c₁ + d₂
  let b₂ := rotateRight (b₁ ^^^ c₂) 7
  (((v.set a a₂).set b b₂).set c c₂).set d d₂

/-- Mixes a block into the columns of the state, then into its diagonals. -/
def round (v : Words 16) (m : Words 16) : Words 16 :=
  let v := mix v 0 4 8 12 m[0] m[1]
  let v := mix v 1 5 9 13 m[2] m[3]
  let v := mix v 2 6 10 14 m[4] m[5]
  let v := mix v 3 7 11 15 m[6] m[7]
  let v := mix v 0 5 10 15 m[8] m[9]
  let v := mix v 1 6 11 12 m[10] m[11]
  let v := mix v 2 7 8 13 m[12] m[13]
  mix v 3 4 9 14 m[14] m[15]

def permute (m : Words 16) : Words 16 := permutation.map fun i => m[i]

def rounds : Nat → Words 16 → Words 16 → Words 16
  | 0, v, _ => v
  | n + 1, v, m => rounds n (round v m) (permute m)

structure Compression where
  chain : Words 8
  block : Words 16
  counter : UInt64
  length : UInt32
  flags : UInt32

/-- The eight words that a compression gives, with more flags set. -/
def Compression.output (c : Compression) (flags : UInt32) : Words 8 :=
  let h := c.chain
  let iv := startingWords
  let v := rounds 7
    #v[h[0], h[1], h[2], h[3], h[4], h[5], h[6], h[7], iv[0], iv[1], iv[2], iv[3],
      c.counter.toUInt32, (c.counter >>> 32).toUInt32, c.length, c.flags ||| flags]
    c.block
  Vector.ofFn fun i : Fin 8 => v[i.val] ^^^ v[i.val + 8]

/-- Cuts a list into pieces of `n + 1` elements, the last one with what is left. -/
def pieces {α : Type} (n : Nat) : List α → List (List α)
  | [] => []
  | a :: rest => (a :: rest.take n) :: pieces n (rest.drop n)
termination_by l => l.length
decreasing_by simp only [List.length_drop, List.length_cons]; omega

/-- The words of a block, the least byte of each first; a short block ends in zeros. -/
def blockWords (block : List UInt8) : Words 16 :=
  let bytes := block.toArray
  let byte (i : Nat) : UInt32 := (bytes.getD i 0).toUInt32
  Vector.ofFn fun i : Fin 16 =>
    byte (4 * i) ||| byte (4 * i + 1) <<< 8 ||| byte (4 * i + 2) <<< 16 |||
      byte (4 * i + 3) <<< 24

def chunkBlocks (flags : UInt32) (counter : UInt64) (chain : Words 8) (start : UInt32) :
    List (List UInt8) → Compression
  | [] => ⟨chain, blockWords [], counter, 0, flags ||| start ||| chunkEnd⟩
  | [block] =>
    ⟨chain, blockWords block, counter, block.length.toUInt32, flags ||| start ||| chunkEnd⟩
  | block :: rest =>
    let here : Compression := ⟨chain, blockWords block, counter, 64, flags ||| start⟩
    chunkBlocks flags counter (here.output 0) 0 rest

def chunk (key : Words 8) (flags : UInt32) (counter : UInt64) (bytes : List UInt8) : Compression :=
  chunkBlocks flags counter key chunkStart (pieces 63 bytes)

def parent (key : Words 8) (flags : UInt32) (left right : Compression) : Compression :=
  ⟨key, left.output 0 ++ right.output 0, 0, 64, flags ||| parentNode⟩

/-- Joins neighbours in pairs; an odd one out stays as it is. -/
def joinPairs (key : Words 8) (flags : UInt32) : List Compression → List Compression
  | a :: b :: rest => parent key flags a b :: joinPairs key flags rest
  | rest => rest

theorem length_joinPairs_le (key : Words 8) (flags : UInt32) (l : List Compression) :
    2 * (joinPairs key flags l).length ≤ l.length + 1 := by
  fun_induction joinPairs key flags l with
  | case1 a b rest ih => simp only [List.length_cons]; omega
  | case2 rest h =>
    match rest, h with
    | [], _ => simp
    | [_], _ => simp
    | a :: b :: t, h => exact absurd rfl (h a b t)

def joinAll (key : Words 8) (flags : UInt32) (first second : Compression)
    (rest : List Compression) : Compression :=
  let joined := parent key flags first second
  match _h : joinPairs key flags rest with
  | [] => joined
  | next :: others => joinAll key flags joined next others
termination_by rest.length
decreasing_by
  have := length_joinPairs_le key flags rest
  rw [_h, List.length_cons] at this
  omega

/-- The hash of some bytes: the words of the last compression, the least byte of each first. -/
def hashWith (key : Words 8) (flags : UInt32) (bytes : List UInt8) : Digest :=
  let chunks := (pieces 1023 bytes).zipIdx.map fun (piece, i) =>
    chunk key flags (UInt64.ofNat i) piece
  let last := match chunks with
    | [] => chunk key flags 0 []
    | [only] => only
    | first :: second :: rest => joinAll key flags first second rest
  let words := last.output rootNode
  Vector.ofFn fun i : Fin 32 => (words[i.val / 4] >>> (8 * (i.val % 4)).toUInt32).toUInt8

def keyWords (key : Digest) : Words 8 :=
  Vector.ofFn fun i : Fin 8 =>
    key[4 * i.val].toUInt32 ||| key[4 * i.val + 1].toUInt32 <<< 8 |||
      key[4 * i.val + 2].toUInt32 <<< 16 ||| key[4 * i.val + 3].toUInt32 <<< 24

def hash : Hash where
  digest := hashWith startingWords 0
  keyed key := hashWith (keyWords key) keyedHash
  deriveKey context :=
    hashWith (keyWords (hashWith startingWords keyContext (Text.Utf8.encode context))) keyMaterial

end ViewState.Blake3
