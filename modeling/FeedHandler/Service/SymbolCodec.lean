import FeedHandler.Core.Types
import Mathlib.Data.List.DropRight

/-! The symbol codec of the replay service: texts are packed into the 8-byte keys of the
journals, padded with blanks, and unpacked with the blanks at their end cut off. -/
namespace FeedHandler

def blank : UInt8 := ' '.toUInt8

def symbolKeyFromView (symbol : List UInt8) : SymbolKey :=
  ⟨Vector.ofFn fun i => if i < symbol.length then symbol.getD i 0 else blank⟩

def symbolToU64 (symbol : List UInt8) : UInt64 := (symbolKeyFromView symbol).asU64

/-- The key byte by byte, most significant first, up to its last byte that is no blank. -/
def symbolToString (symbol : UInt64) : List UInt8 :=
  ((List.range 8).map fun i => ((symbol >>> UInt64.ofNat (56 - 8 * i)) &&& 0xFF).toUInt8).rdropWhile
    (· == blank)

theorem keyByte_toNat (symbol : UInt64) {shift : Nat} (small : shift < 64) :
    ((symbol >>> UInt64.ofNat shift) &&& 0xFF).toUInt8 =
      UInt8.ofNat (symbol.toNat / 2 ^ shift) := by
  have amount : (UInt64.ofNat shift).toNat % 64 = shift := by
    rw [UInt64.toNat_ofNat']
    omega
  apply UInt8.toNat_inj.mp
  rw [UInt64.toNat_toUInt8, UInt64.toNat_and, UInt64.toNat_shiftRight, amount,
    Nat.shiftRight_eq_div_pow, UInt8.toNat_ofNat']
  exact congrArg (· % 2 ^ 8) (Nat.and_two_pow_sub_one_eq_mod _ 8) |>.trans (Nat.mod_mod _ _)

theorem keyBytes_eq (symbol : UInt64) :
    ((List.range 8).map fun i => ((symbol >>> UInt64.ofNat (56 - 8 * i)) &&& 0xFF).toUInt8) =
      BigEndian.toBytes 8 symbol.toNat := by
  have bytes : ∀ i, ((symbol >>> UInt64.ofNat (56 - 8 * i)) &&& 0xFF).toUInt8 =
      UInt8.ofNat (symbol.toNat / 2 ^ (56 - 8 * i)) := fun i => keyByte_toNat symbol (by omega)
  simp only [bytes, List.range, List.range.loop, List.map_cons, List.map_nil, BigEndian.toBytes,
    Nat.div_div_eq_div_mul, List.nil_append, List.cons_append]
  norm_num

/-- A key unpacks to its bytes without the blanks at their end. -/
theorem symbolToString_asU64 (key : SymbolKey) :
    symbolToString key.asU64 = key.bytes.toList.rdropWhile (· == blank) := by
  have spelled := BigEndian.toBytes_ofBytes key.bytes.toList
  rw [Vector.length_toList] at spelled
  rw [symbolToString, keyBytes_eq, SymbolKey.asU64_toNat, spelled]

/-- A text of at most eight characters packs into them and blanks behind them. -/
theorem symbolKeyFromView_bytes {symbol : List UInt8} (short : symbol.length ≤ 8) :
    (symbolKeyFromView symbol).bytes.toList =
      symbol ++ List.replicate (8 - symbol.length) blank := by
  apply List.ext_getElem
  · simp only [Vector.length_toList, List.length_append, List.length_replicate]
    omega
  · intro i _ _
    simp only [symbolKeyFromView, Vector.getElem_toList, Vector.getElem_ofFn]
    by_cases inside : i < symbol.length
    · simp [inside]
    · simp [inside, List.getElem_append_right (not_lt.mp inside)]

/-- The texts that a key holds whole: one to eight characters, none a blank or NUL. -/
structure SymbolText where
  text : List UInt8
  nonempty : 1 ≤ text.length
  short : text.length ≤ 8
  plain : ∀ c ∈ text, c ≠ blank ∧ c ≠ 0

theorem SymbolText.plain_of_all {text : List UInt8}
    (all : (text.all fun c => c != blank && c != 0) = true) : ∀ c ∈ text, c ≠ blank ∧ c ≠ 0 := by
  simpa using all

/-- Packing a text and unpacking its key gives the text back. -/
theorem SymbolText.symbolToString_symbolToU64 (symbol : SymbolText) :
    symbolToString (symbolToU64 symbol.text) = symbol.text := by
  rw [symbolToU64, symbolToString_asU64, symbolKeyFromView_bytes symbol.short]
  generalize 8 - symbol.text.length = padding
  induction padding with
  | zero =>
    rw [List.replicate_zero, List.append_nil, List.rdropWhile_eq_self_iff]
    intro nonempty trailing
    exact (symbol.plain _ (List.getLast_mem nonempty)).1 (beq_iff_eq.mp trailing)
  | succ padding ih =>
    rw [List.replicate_succ', ← List.append_assoc, List.rdropWhile_concat_pos _ _ _ (by simp), ih]

end FeedHandler
