import Mathlib.Logic.Function.Basic
import FeedHandler.Lib.BigEndian

/-! The canonical event model that every stage after parsing shares. Field names,
defaults and enumeration codes follow the record of the source; wire-sized fields
keep their machine width. -/
namespace FeedHandler

/-- Number of values of a 64-bit word. Sequence arithmetic is carried out on
natural numbers and reduced modulo this size wherever the source can wrap. -/
def wordSize : Nat := 2 ^ 64

inductive Venue where
  | nasdaq | iex | cboe | cme | bitfinex
  deriving DecidableEq, Repr

/-- The underlying value of the enumeration, which is also the array slot. -/
def Venue.code : Venue → UInt8
  | .nasdaq => 0
  | .iex => 1
  | .cboe => 2
  | .cme => 3
  | .bitfinex => 4

/-- The venue slots in array order, as the scans over all venues visit them. -/
def Venue.all : List Venue := [.nasdaq, .iex, .cboe, .cme, .bitfinex]

theorem Venue.code_inj {a b : Venue} (same : a.code = b.code) : a = b := by
  cases a <;> cases b <;> first | rfl | exact absurd same (by decide)

theorem Venue.mem_all (v : Venue) : v ∈ Venue.all := by
  cases v <;> decide

/-- A total over all venues changes by what one venue changes. -/
theorem Venue.sum_update {f g : Venue → Nat} {v : Venue} (same : ∀ w, w ≠ v → f w = g w) :
    (Venue.all.map f).sum + g v = (Venue.all.map g).sum + f v := by
  have nasdaq := same .nasdaq
  have iex := same .iex
  have cboe := same .cboe
  have cme := same .cme
  have bitfinex := same .bitfinex
  simp only [Venue.all, List.map_cons, List.map_nil, List.sum_cons, List.sum_nil]
  cases v <;> simp_all <;> omega

inductive Side where
  | buy | sell | unknown
  deriving DecidableEq, Repr

theorem Side.buy_ne_unknown : Side.buy ≠ .unknown := by decide

theorem Side.sell_ne_unknown : Side.sell ≠ .unknown := by decide

inductive EventType where
  | add | addMpid | execute | executePrice | cancel | delete | replace
  | trade | crossTrade | imbalance | system | stockDirectory | unknown
  deriving DecidableEq, Repr

def EventType.code : EventType → UInt8
  | .add => 0
  | .addMpid => 1
  | .execute => 2
  | .executePrice => 3
  | .cancel => 4
  | .delete => 5
  | .replace => 6
  | .trade => 7
  | .crossTrade => 8
  | .imbalance => 9
  | .system => 10
  | .stockDirectory => 11
  | .unknown => 255

/-- Add and AddMpid. -/
def EventType.adds : EventType → Bool
  | .add | .addMpid => true
  | _ => false

/-- Execute, ExecutePrice, Cancel and Delete. -/
def EventType.reduces : EventType → Bool
  | .execute | .executePrice | .cancel | .delete => true
  | _ => false

structure SymbolKey where
  bytes : Vector UInt8 8 := Vector.replicate 8 0
  deriving DecidableEq, Repr

/-- Big-endian image of the eight symbol bytes, the key of every book. -/
def SymbolKey.asU64 (symbol : SymbolKey) : UInt64 :=
  symbol.bytes.toList.foldl (fun value byte => (value <<< 8) ||| byte.toUInt64) 0

theorem SymbolKey.shift_or (value : UInt64) (byte : UInt8) :
    ((value <<< 8) ||| byte.toUInt64).toNat = (value.toNat * 256 + byte.toNat) % 2 ^ 64 := by
  have small : byte.toNat < 2 ^ 8 := byte.toNat_lt
  have high : value.toNat <<< 8 % 2 ^ 64 = (value.toNat % 2 ^ 56) <<< 8 := by
    simp only [Nat.shiftLeft_eq]
    omega
  have shifted : (value <<< 8).toNat = value.toNat <<< 8 % 2 ^ 64 := by
    simp [UInt64.toNat_shiftLeft]
  rw [UInt64.toNat_or, UInt8.toNat_toUInt64, shifted, high, ← Nat.shiftLeft_add_eq_or_of_lt small,
    Nat.shiftLeft_eq]
  omega

theorem SymbolKey.fold_toNat (bytes : List UInt8) (value : UInt64) :
    (bytes.foldl (fun (value : UInt64) byte => (value <<< 8) ||| byte.toUInt64) value).toNat =
      bytes.foldl (fun value byte => value * 256 + byte.toNat) value.toNat % 2 ^ 64 := by
  induction bytes using List.reverseRecOn with
  | nil => exact (Nat.mod_eq_of_lt value.toNat_lt).symm
  | append_singleton front byte ih =>
    simp only [List.foldl_append, List.foldl_cons, List.foldl_nil, SymbolKey.shift_or, ih]
    omega

theorem SymbolKey.asU64_toNat (symbol : SymbolKey) :
    symbol.asU64.toNat = BigEndian.ofBytes symbol.bytes.toList := by
  have small : BigEndian.ofBytes symbol.bytes.toList < 2 ^ 64 := by
    have bound := BigEndian.ofBytes_lt symbol.bytes.toList
    rwa [Vector.length_toList] at bound
  exact (SymbolKey.fold_toNat _ 0).trans (Nat.mod_eq_of_lt small)

/-- Books of distinct symbols have distinct keys. -/
theorem SymbolKey.asU64_inj {a b : SymbolKey} : a.asU64 = b.asU64 ↔ a = b := by
  constructor
  · intro same
    have spelled : BigEndian.ofBytes a.bytes.toList = BigEndian.ofBytes b.bytes.toList := by
      rw [← a.asU64_toNat, ← b.asU64_toNat, same]
    have bytes := BigEndian.eq_of_ofBytes_eq (by simp) spelled
    obtain ⟨a⟩ := a
    obtain ⟨b⟩ := b
    exact congrArg SymbolKey.mk (Vector.toList_inj.mp bytes)
  · rintro rfl
    rfl

structure BookEvent where
  venue : Venue := .nasdaq
  type : EventType := .unknown
  sequence : UInt64 := 0
  exchangeTsNs : UInt64 := 0
  ingestTsNs : UInt64 := 0
  symbol : SymbolKey := {}
  orderId : UInt64 := 0
  matchId : UInt64 := 0
  referenceOrderId : UInt64 := 0
  qty : UInt32 := 0
  price : UInt32 := 0
  prevQty : UInt32 := 0
  prevPrice : UInt32 := 0
  side : Side := .unknown
  mpid : Option (Vector UInt8 4) := none
  rawType : UInt8 := 0
  deriving DecidableEq, Repr

/-- The sequence number as the natural number the trackers compute with. -/
def BookEvent.seq (ev : BookEvent) : Nat := ev.sequence.toNat

theorem BookEvent.seq_lt (ev : BookEvent) : ev.seq < wordSize := ev.sequence.toNat_lt

end FeedHandler
