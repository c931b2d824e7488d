import NervesSystem.Media
import NervesSystem.Library.Overlay
import NervesSystem.Library.Records

namespace NervesSystem.SdioTx

open Records

inductive ChipId
  | aic8801
  | aic8800dc
  | aic8800dw
  | aic8800d80
  | aic8800d80x2
  deriving DecidableEq

def txAlignment : ℕ := 4

def txpktBlocksize : ℕ := 512

def tailLen : ℕ := 4

def maxAggrTxpktLen : ℕ := 1536 * 64

def roundup (n m : ℕ) : ℕ := (n + m - 1) / m * m

def crcBit (byte crc i : UInt8) : UInt8 :=
  let crc := if crc &&& 0x80 ≠ 0 then crc * 2 ^^^ 0x07 else crc * 2
  if byte &&& i ≠ 0 then crc ^^^ 0x07 else crc

def crc8Ponl107 (buffer : Bytes) : UInt8 :=
  buffer.foldl (fun crc byte => [0x80, 0x40, 0x20, 0x10, 0x08, 0x04, 0x02, 0x01].foldl
    (crcBit byte) crc) 0

/-- A frame that goes to the bus: its `txdesc_api`, and what follows its headroom. -/
structure TxPkt where
  desc : Bytes
  body : Bytes
  priority : ℕ
  needCfm : Bool
  desc_length : desc.length = 28
  deriving DecidableEq

/-- `pkt->len - headroom + sizeof(struct txdesc_api)` -/
def TxPkt.length (pkt : TxPkt) : ℕ := pkt.desc.length + pkt.body.length

/-- The chips that take the length in the header with its padding. -/
def ChipId.padsLength : ChipId → Bool
  | .aic8801 | .aic8800dc | .aic8800dw => true
  | .aic8800d80 | .aic8800d80x2 => false

def lengthBytes (len : ℕ) : Bytes := [UInt8.ofNat (len % 256), UInt8.ofNat (len / 256 % 16)]

def sdioHeader (chip : ChipId) (len : ℕ) : Bytes :=
  let start := lengthBytes len ++ [0x01]
  start ++ [if chip.padsLength then 0 else crc8Ponl107 start]

/-- The buffer the frames are gathered in, from its head, with `aggr_count`. -/
structure AggrBuf where
  mem : Bytes
  tail : ℕ
  count : ℕ

def store (mem : Bytes) (start : ℕ) (xs : Bytes) : Bytes :=
  mem.take start ++ overlay xs (mem.drop start)

def AggrBuf.put (b : AggrBuf) (xs : Bytes) : AggrBuf :=
  { b with mem := store b.mem b.tail xs, tail := b.tail + xs.length }

def zeros (n : ℕ) : Bytes := List.replicate n 0

def wordAlign (b : AggrBuf) : AggrBuf :=
  if b.tail % txAlignment ≠ 0 then b.put (zeros (roundup b.tail txAlignment - b.tail)) else b

/-- The length of the frame that starts there is written again, with its padding. -/
def padLength (b : AggrBuf) (start : ℕ) : AggrBuf :=
  { b with mem := store b.mem start (lengthBytes (b.tail - start - 4)) }

def sdioAggr (chip : ChipId) (b : AggrBuf) (pkt : TxPkt) : AggrBuf :=
  let b' := wordAlign (((b.put (sdioHeader chip pkt.length)).put pkt.desc).put pkt.body)
  let b' := if chip.padsLength then padLength b' b.tail else b'
  { b' with count := b.count + 1 }

def sdioAggrbufReset (b : AggrBuf) : AggrBuf := { b with tail := 0, count := 0 }

/-- `aicwf_sdio_aggr_send`: what is written to the bus, and the buffer after it. -/
def sdioAggrSend (b : AggrBuf) : Bytes × AggrBuf :=
  let b := if b.tail % txpktBlocksize ≠ 0 then b.put (zeros tailLen) else b
  (b.mem.take (roundup b.tail txpktBlocksize), sdioAggrbufReset b)

/-- The bytes between head and tail. -/
def AggrBuf.filled (b : AggrBuf) : Bytes := b.mem.take b.tail

/-- The tail lies in the memory, at a word. -/
structure AggrBuf.Aligned (b : AggrBuf) : Prop where
  within : b.tail ≤ b.mem.length
  word : b.tail % 4 = 0

/-- What one frame makes up in the buffer. -/
def block (chip : ChipId) (pkt : TxPkt) : Bytes :=
  let pad := zeros (roundup pkt.length txAlignment - pkt.length)
  let len := if chip.padsLength then roundup pkt.length txAlignment else pkt.length
  let crc := if chip.padsLength then 0 else crc8Ponl107 (lengthBytes len ++ [0x01])
  lengthBytes len ++ [0x01, crc] ++ pkt.desc ++ pkt.body ++ pad

/-- The frames that lie in the buffer, one behind the other. -/
def batch (chip : ChipId) (pkts : List TxPkt) : Bytes := (pkts.map (block chip)).flatten

/-- The length that a header gives, in its twelve bits. -/
def headerLength (b0 b1 : UInt8) : ℕ := b0.toNat + 256 * (b1.toNat % 16)

/-- How the blocks of a transfer are told apart: a header without a length ends it. -/
def blockSize : Bytes → Option ℕ
  | b0 :: b1 :: _ :: _ :: _ =>
    if headerLength b0 b1 = 0 then none else some (4 + roundup (headerLength b0 b1) txAlignment)
  | _ => none

/-- What a block carries, as long as its header says. -/
def payload : Bytes → Bytes
  | b0 :: b1 :: _ :: _ :: rest => rest.take (headerLength b0 b1)
  | _ => []

theorem store_take {mem : Bytes} {start : ℕ} (h : start ≤ mem.length) (xs : Bytes) :
    (store mem start xs).take (start + xs.length) = mem.take start ++ xs := by
  have hlen : (mem.take start).length = start := by rw [List.length_take]; omega
  rw [store, overlay, ← List.append_assoc, List.take_left']
  rw [List.length_append, hlen]

theorem store_length {mem : Bytes} {start : ℕ} (h : start ≤ mem.length) (xs : Bytes) :
    (store mem start xs).length = max mem.length (start + xs.length) := by
  rw [store, List.length_append, length_overlay, List.length_take, List.length_drop]
  omega

/-- A store below the tail changes only what it covers. -/
theorem store_below {mem : Bytes} {start n : ℕ} (xs : Bytes) (h : start + xs.length ≤ n)
    (hn : n ≤ mem.length) : (store mem start xs).take n =
      (mem.take n).take start ++ xs ++ (mem.take n).drop (start + xs.length) := by
  have hlen : (mem.take start).length = start := by rw [List.length_take]; omega
  rw [store, overlay, ← List.append_assoc, List.take_append, List.length_append, hlen,
    List.take_of_length_le (by rw [List.length_append, hlen]; exact h), List.drop_drop,
    List.take_take, Nat.min_eq_left (by omega), List.drop_take]

theorem filled_length {b : AggrBuf} (h : b.tail ≤ b.mem.length) : b.filled.length = b.tail := by
  rw [AggrBuf.filled, List.length_take]
  omega

theorem put_filled {b : AggrBuf} (h : b.tail ≤ b.mem.length) (xs : Bytes) :
    (b.put xs).filled = b.filled ++ xs :=
  store_take h xs

theorem put_within {b : AggrBuf} (h : b.tail ≤ b.mem.length) (xs : Bytes) :
    (b.put xs).tail ≤ (b.put xs).mem.length := by
  show b.tail + xs.length ≤ (store b.mem b.tail xs).length
  rw [store_length h]
  omega

theorem lengthBytes_length (len : ℕ) : (lengthBytes len).length = 2 := rfl

theorem zeros_length (n : ℕ) : (zeros n).length = n := List.length_replicate

theorem wordAlign_spec {b : AggrBuf} (h : b.tail ≤ b.mem.length) :
    (wordAlign b).filled = b.filled ++ zeros (roundup b.tail txAlignment - b.tail) ∧
      (wordAlign b).tail = roundup b.tail txAlignment ∧
      (wordAlign b).tail ≤ (wordAlign b).mem.length := by
  rw [wordAlign]
  split
  · refine ⟨put_filled h _, ?_, put_within h _⟩
    show b.tail + (zeros _).length = _
    rw [zeros_length, roundup, txAlignment]
    omega
  · next hz =>
    have hr : roundup b.tail txAlignment = b.tail := by
      rw [txAlignment] at hz
      rw [roundup, txAlignment]
      omega
    rw [hr, Nat.sub_self]
    exact ⟨(List.append_nil _).symm, rfl, h⟩

theorem padLength_filled {b : AggrBuf} {start : ℕ} {pre rest : Bytes} {x y : UInt8}
    (h : b.tail ≤ b.mem.length) (hpre : pre.length = start)
    (hf : b.filled = pre ++ [x, y] ++ rest) :
    (padLength b start).filled = pre ++ lengthBytes (b.tail - start - 4) ++ rest := by
  have hlen := filled_length h
  rw [hf, List.length_append, List.length_append, hpre] at hlen
  have hfits : start + (lengthBytes (b.tail - start - 4)).length ≤ b.tail := by
    rw [lengthBytes_length, ← hlen]
    exact Nat.le_add_right ..
  have hbelow := store_below (lengthBytes (b.tail - start - 4)) hfits h
  show (store b.mem start (lengthBytes (b.tail - start - 4))).take b.tail = _
  have htake : (pre ++ [x, y] ++ rest).take start = pre := by
    rw [List.append_assoc, List.take_left' hpre]
  have hdrop : (pre ++ [x, y] ++ rest).drop (start + 2) = rest :=
    List.drop_left' (by rw [List.length_append, hpre]; rfl)
  rw [hbelow]
  show b.filled.take start ++ _ ++ b.filled.drop _ = _
  rw [hf, lengthBytes_length, htake, hdrop]

theorem roundup_four (n : ℕ) : roundup n txAlignment = n + (3 - (n + 3) % 4) := by
  rw [roundup, txAlignment]
  omega

theorem block_length (chip : ChipId) (pkt : TxPkt) :
    (block chip pkt).length = 4 + roundup pkt.length txAlignment := by
  have hle : pkt.length ≤ roundup pkt.length txAlignment := by rw [roundup_four]; omega
  simp only [block, List.length_append, lengthBytes_length, zeros_length, List.length_cons,
    List.length_nil]
  rw [TxPkt.length] at hle ⊢
  omega

theorem sdioAggr_count (chip : ChipId) (b : AggrBuf) (pkt : TxPkt) :
    (sdioAggr chip b pkt).count = b.count + 1 := rfl

/-- Gathering a frame adds its block behind the frames before it. -/
theorem sdioAggr_filled (chip : ChipId) {b : AggrBuf} (h : b.Aligned) (pkt : TxPkt) :
    (sdioAggr chip b pkt).filled = b.filled ++ block chip pkt ∧ (sdioAggr chip b pkt).Aligned := by
  have h1 := put_within h.within (sdioHeader chip pkt.length)
  have h2 := put_within h1 pkt.desc
  have h3 := put_within h2 pkt.body
  set b' := ((b.put (sdioHeader chip pkt.length)).put pkt.desc).put pkt.body with hb'
  have hfill : b'.filled = b.filled ++ sdioHeader chip pkt.length ++ pkt.desc ++ pkt.body := by
    rw [hb', put_filled h2, put_filled h1, put_filled h.within]
  have htail : b'.tail = b.tail + 4 + pkt.length := by
    show b.tail + (sdioHeader chip pkt.length).length + pkt.desc.length + pkt.body.length = _
    exact Nat.add_assoc ..
  obtain ⟨hwf, hwt, hww⟩ := wordAlign_spec h3
  have hword := h.word
  have hround : roundup b'.tail txAlignment = b.tail + 4 + roundup pkt.length txAlignment := by
    rw [roundup_four, roundup_four, htail]
    omega
  have hpad : roundup b'.tail txAlignment - b'.tail =
      roundup pkt.length txAlignment - pkt.length := by
    omega
  rw [hround] at hwt
  have hal : (wordAlign b').tail % 4 = 0 := by
    rw [hwt, roundup_four]
    omega
  rw [hpad, hfill] at hwf
  cases hchip : chip.padsLength with
  | false =>
    have hs : sdioAggr chip b pkt = { wordAlign b' with count := b.count + 1 } := by
      rw [sdioAggr, hchip]
      rfl
    rw [hs]
    refine ⟨?_, hww, hal⟩
    show (wordAlign b').filled = _
    rw [hwf]
    simp [block, sdioHeader, hchip]
  | true =>
    have hs : sdioAggr chip b pkt =
        { padLength (wordAlign b') b.tail with count := b.count + 1 } := by
      rw [sdioAggr, hchip]
      rfl
    have hlen : (wordAlign b').tail - b.tail - 4 = roundup pkt.length txAlignment := by omega
    have hsplit : (wordAlign b').filled =
        b.filled ++ [UInt8.ofNat (pkt.length % 256), UInt8.ofNat (pkt.length / 256 % 16)] ++
          ([0x01, 0] ++ pkt.desc ++ pkt.body ++
            zeros (roundup pkt.length txAlignment - pkt.length)) := by
      rw [hwf]
      simp [sdioHeader, lengthBytes, hchip]
    have hp := padLength_filled hww (filled_length h.within) hsplit
    rw [hlen] at hp
    rw [hs]
    refine ⟨?_, ?_, hal⟩
    · show (padLength (wordAlign b') b.tail).filled = _
      rw [hp]
      simp [block, hchip]
    · show (wordAlign b').tail ≤ (store (wordAlign b').mem b.tail _).length
      rw [store_length (by omega)]
      omega

theorem headerLength_lengthBytes (len : ℕ) (h : len < 4096) :
    headerLength (UInt8.ofNat (len % 256)) (UInt8.ofNat (len / 256 % 16)) = len := by
  have h0 : (UInt8.ofNat (len % 256)).toNat = len % 256 := by
    rw [UInt8.toNat_ofNat']
    omega
  have h1 : (UInt8.ofNat (len / 256 % 16)).toNat = len / 256 % 16 := by
    rw [UInt8.toNat_ofNat']
    omega
  rw [headerLength, h0, h1]
  omega

/-- The length in the header of a block, and what follows it. -/
theorem block_eq (chip : ChipId) (pkt : TxPkt) : ∃ len crc,
    block chip pkt = lengthBytes len ++ [0x01, crc] ++
      (pkt.desc ++ pkt.body ++ zeros (roundup pkt.length txAlignment - pkt.length)) ∧
      pkt.length ≤ len ∧ roundup len txAlignment = roundup pkt.length txAlignment ∧
      len ≤ roundup pkt.length txAlignment ∧
      (chip.padsLength = false →
        len = pkt.length ∧ crc = crc8Ponl107 (lengthBytes len ++ [0x01])) := by
  have h4 := roundup_four pkt.length
  refine ⟨if chip.padsLength then roundup pkt.length txAlignment else pkt.length,
    if chip.padsLength then 0 else crc8Ponl107 (lengthBytes (if chip.padsLength then
      roundup pkt.length txAlignment else pkt.length) ++ [0x01]), ?_, ?_, ?_, ?_, ?_⟩
  · simp only [block, List.append_assoc]
  · split <;> omega
  · split
    · rw [roundup_four (roundup pkt.length txAlignment)]
      omega
    · rfl
  · split <;> omega
  · intro hchip
    simp [hchip]

theorem blockSize_block {chip : ChipId} {pkt : TxPkt} (h : pkt.length ≤ 4092) (rest : Bytes) :
    blockSize (block chip pkt ++ rest) = some (block chip pkt).length := by
  obtain ⟨len, crc, hb, hle, hround, hlen, -⟩ := block_eq chip pkt
  have h4 := roundup_four pkt.length
  have hdesc := pkt.desc_length
  have hpos : 28 ≤ pkt.length := by
    rw [TxPkt.length, hdesc]
    exact Nat.le_add_right ..
  have hfield := headerLength_lengthBytes len (by omega)
  rw [block_length, ← hround, hb]
  simp only [lengthBytes, List.cons_append, List.nil_append, blockSize, hfield]
  rw [if_neg (by omega)]

/-- The payload of a block is the descriptor and the frame, and up to three zeros where the header
has the length with the padding. -/
theorem payload_block {chip : ChipId} {pkt : TxPkt} (h : pkt.length ≤ 4092) :
    ∃ k ≤ 3, payload (block chip pkt) = pkt.desc ++ pkt.body ++ zeros k ∧
      (chip.padsLength = false → k = 0) := by
  obtain ⟨len, crc, hb, hle, hround, hlen, hchip⟩ := block_eq chip pkt
  have h4 := roundup_four pkt.length
  have hfield := headerLength_lengthBytes len (by omega)
  have hlength : (pkt.desc ++ pkt.body).length = pkt.length := List.length_append
  refine ⟨len - pkt.length, by omega, ?_, fun hc => by rw [(hchip hc).1, Nat.sub_self]⟩
  have hp : payload (block chip pkt) = (pkt.desc ++ pkt.body ++
      zeros (roundup pkt.length txAlignment - pkt.length)).take len := by
    rw [hb]
    simp only [lengthBytes, List.cons_append, List.nil_append, payload, hfield]
  rw [hp, List.take_append, hlength, List.take_of_length_le (by omega)]
  congr 1
  simp only [zeros, List.take_replicate]
  congr 1
  omega

theorem put_grows {b : AggrBuf} {m : ℕ} (h : b.mem.length = max m b.tail) (xs : Bytes) :
    (b.put xs).mem.length = max m (b.put xs).tail := by
  show (store b.mem b.tail xs).length = max m (b.tail + xs.length)
  rw [store_length (by omega), h]
  omega

/-- The memory is outgrown only where the tail is past it. -/
theorem sdioAggr_mem (chip : ChipId) {b : AggrBuf} (h : b.Aligned) (pkt : TxPkt) :
    (sdioAggr chip b pkt).mem.length = max b.mem.length (sdioAggr chip b pkt).tail := by
  have hwithin := h.within
  have h0 : b.mem.length = max b.mem.length b.tail := by omega
  have h3 := put_grows (put_grows (put_grows h0 (sdioHeader chip pkt.length)) pkt.desc) pkt.body
  set b' := ((b.put (sdioHeader chip pkt.length)).put pkt.desc).put pkt.body with hb'
  have hw : (wordAlign b').mem.length = max b.mem.length (wordAlign b').tail := by
    rw [wordAlign]
    split
    · exact put_grows h3 _
    · exact h3
  have hstart : b.tail + 2 ≤ (wordAlign b').tail := by
    have hle : b.tail + 4 + pkt.desc.length + pkt.body.length ≤ (wordAlign b').tail := by
      rw [wordAlign]
      split
      · exact Nat.le_add_right _ _
      · exact Nat.le_refl _
    omega
  rw [sdioAggr]
  split
  · show (store (wordAlign b').mem b.tail _).length = max b.mem.length (wordAlign b').tail
    rw [store_length (by omega), lengthBytes_length]
    omega
  · exact hw

theorem sdioAggrSend_mem {b : AggrBuf} (h : b.Aligned) (hmem : b.mem.length = maxAggrTxpktLen) :
    (sdioAggrSend b).2.mem.length = maxAggrTxpktLen := by
  have hword := h.word
  have hwithin := h.within
  simp only [sdioAggrSend]
  split
  · next hz =>
    show (store b.mem b.tail (zeros tailLen)).length = maxAggrTxpktLen
    rw [store_length hwithin, zeros_length, hmem]
    rw [hmem, maxAggrTxpktLen] at hwithin
    rw [txpktBlocksize] at hz
    rw [maxAggrTxpktLen, tailLen]
    omega
  · exact hmem

theorem batch_concat (chip : ChipId) (pkts : List TxPkt) (pkt : TxPkt) :
    batch chip (pkts ++ [pkt]) = batch chip pkts ++ block chip pkt := by
  simp [batch]

theorem batch_length_le {chip : ChipId} {pkts : List TxPkt} {n : ℕ}
    (h : ∀ pkt ∈ pkts, (block chip pkt).length ≤ n) :
    (batch chip pkts).length ≤ pkts.length * n := by
  induction pkts with
  | nil => simp [batch]
  | cons pkt pkts ih =>
    have hhead := h pkt List.mem_cons_self
    have hrest := ih fun pkt' hp => h pkt' (List.mem_cons_of_mem _ hp)
    have hcons : batch chip (pkt :: pkts) = block chip pkt ++ batch chip pkts := rfl
    rw [hcons, List.length_append, List.length_cons, Nat.succ_mul]
    omega

/-- A transfer is told apart into the blocks that were gathered, whatever the memory holds behind
them. -/
theorem sdioAggrSend_complete {chip : ChipId} {b : AggrBuf} {pkts : List TxPkt} (h : b.Aligned)
    (hfill : b.filled = batch chip pkts) (hmem : b.mem.length = maxAggrTxpktLen)
    (hshort : ∀ pkt ∈ pkts, pkt.length ≤ 4092) :
    Complete blockSize (sdioAggrSend b).1 (pkts.map (block chip)) := by
  have hparts : ∀ rest, blockSize rest = none →
      Complete blockSize (b.filled ++ rest) (pkts.map (block chip)) := by
    intro rest hrest
    rw [hfill]
    apply complete_flatten _ _ hrest
    · intro r hr
      obtain ⟨pkt, -, rfl⟩ := List.mem_map.mp hr
      exact List.ne_nil_of_length_pos (by rw [block_length]; omega)
    · intro r hr ys
      obtain ⟨pkt, hpkt, rfl⟩ := List.mem_map.mp hr
      exact blockSize_block (hshort pkt hpkt) ys
  have hword := h.word
  have hwithin := h.within
  rw [hmem, maxAggrTxpktLen] at hwithin
  rw [sdioAggrSend]
  by_cases hz : b.tail % txpktBlocksize ≠ 0
  · -- The word of zeros behind the last block keeps the old bytes of the memory from being read.
    rw [if_pos hz]
    have hput := put_filled h.within (zeros tailLen)
    have htail : (b.put (zeros tailLen)).tail = b.tail + 4 := rfl
    have hle : b.tail + 4 ≤ roundup (b.tail + 4) txpktBlocksize := by
      rw [roundup, txpktBlocksize]
      omega
    obtain ⟨rest, hrest⟩ : ∃ rest, (b.put (zeros tailLen)).mem.take
        (roundup (b.tail + 4) txpktBlocksize) = b.filled ++ zeros tailLen ++ rest := by
      rw [← hput]
      obtain ⟨rest, hr⟩ := List.take_prefix_take_left (l := (b.put (zeros tailLen)).mem) hle
      exact ⟨rest, hr.symm⟩
    rw [htail, hrest, List.append_assoc]
    exact hparts _ rfl
  · rw [if_neg hz]
    have hr : roundup b.tail txpktBlocksize = b.tail := by
      rw [roundup]
      rw [txpktBlocksize] at hz ⊢
      omega
    have h := hparts [] rfl
    rwa [List.append_nil, AggrBuf.filled, ← hr] at h

end NervesSystem.SdioTx
