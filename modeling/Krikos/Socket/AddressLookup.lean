import Krikos.Lib.Bytes
import Krikos.Lib.Check
import Krikos.Lib.Run
import Krikos.Lib.Table

/-!
# Socket.AddressLookup

The in-memory address lookup (`memory.rs`) and the one of gossip (`net/address_lookup.rs`) merge
whatever is added for an endpoint. The limits are checked only where a resolved item is used
(`remote_state.rs`), for all of the merged addresses at once. So additions within the limits leave
the endpoints usable exactly while what is merged is within the limits, too (`usable_iff`).
-/

namespace Krikos.Socket

open Lib List

/-! ## Endpoint addresses -/

abbrev EndpointId := FixedBytes 32

inductive SocketAddr where
  | v4 (ip : FixedBytes 4) (port : Fin (2 ^ 16))
  | v6 (ip : FixedBytes 16) (port : Fin (2 ^ 16)) (flowinfo scopeId : Fin (2 ^ 32))
  deriving DecidableEq

inductive TransportAddr where
  | relay (url : Bytes)
  | ip (addr : SocketAddr)
  | custom (id : U64) (data : Bytes)
  deriving DecidableEq

structure AddressLimits where
  maxCustomAddrBytes : Nat := 512
  maxRelayUrlBytes : Nat := 2048
  maxEndpointAddrs : Nat := 34
  maxEndpointAddrBytes : Nat := 16 * 1024

inductive AddressLimitError where
  | customAddrBytes (actual maximum : Nat)
  | endpointAddrCount (maximum : Nat)
  | relayUrlBytes (actual maximum : Nat)
  | endpointAddrBytes (actual maximum : Nat)

/-- A `BTreeSet` of addresses is a list of them: its order only decides which error comes first. -/
structure EndpointAddr where
  id : EndpointId
  addrs : List TransportAddr

structure EndpointData where
  addrs : List TransportAddr
  userData : Option Bytes

structure EndpointInfo where
  endpointId : EndpointId
  data : EndpointData

def validateTransportAddr (limits : AddressLimits) : TransportAddr → Except AddressLimitError Nat
  | .relay url => do
    reject (limits.maxRelayUrlBytes < url.length)
      (.relayUrlBytes url.length limits.maxRelayUrlBytes)
    pure (1 + url.length)
  | .ip (.v4 _ _) => pure (1 + 4 + 2)
  | .ip (.v6 _ _ _ _) => pure (1 + 16 + 2)
  | .custom _ data => do
    reject (limits.maxCustomAddrBytes < data.length)
      (.customAddrBytes data.length limits.maxCustomAddrBytes)
    pure (1 + 8 + data.length)

/-- The loop of `try_from_parts_with_limits` -/
def retain (limits : AddressLimits) (index accountedBytes : Nat) (retained : List TransportAddr) :
    List TransportAddr → Except AddressLimitError (List TransportAddr)
  | [] => pure retained
  | addr :: addrs => do
    reject (limits.maxEndpointAddrs ≤ index) (.endpointAddrCount limits.maxEndpointAddrs)
    let addrBytes ← validateTransportAddr limits addr
    if addr ∈ retained then retain limits (index + 1) accountedBytes retained addrs
    else
      reject (limits.maxEndpointAddrBytes < accountedBytes + addrBytes)
        (.endpointAddrBytes (accountedBytes + addrBytes) limits.maxEndpointAddrBytes)
      retain limits (index + 1) (accountedBytes + addrBytes) (retained ++ [addr]) addrs

def EndpointAddr.tryFromParts (id : EndpointId) (addrs : List TransportAddr) :
    Except AddressLimitError EndpointAddr := do
  pure ⟨id, ← retain {} 0 id.val.length [] addrs⟩

def EndpointInfo.intoEndpointAddr (info : EndpointInfo) : EndpointAddr :=
  ⟨info.endpointId, info.data.addrs.dedup⟩

/-- The addresses that a remote state is given by an item, if it accepts the item. -/
def handleAddressLookupItem (endpointId : EndpointId) (item : EndpointInfo) :
    Option (List TransportAddr) :=
  if item.endpointId ≠ endpointId then none
  else
    match EndpointAddr.tryFromParts item.intoEndpointAddr.id item.intoEndpointAddr.addrs with
    | .error _ => none
    | .ok addr => some addr.addrs

/-! ## Lookups -/

/-- Old addresses come first, and each one comes once. -/
def EndpointData.addAddrs (data : EndpointData) (addrs : List TransportAddr) : EndpointData :=
  { data with addrs := (data.addrs ++ addrs).eraseDups }

/-- What either lookup stores: both add to it in the same way. -/
abbrev NodeMap := Table EndpointId EndpointData

namespace NodeMap
variable (endpoints : NodeMap)

/-- `add_endpoint_info` of the one lookup, and `add` of the other -/
def add (info : EndpointInfo) : NodeMap :=
  match endpoints.get info.endpointId with
  | some existing => endpoints.insert info.endpointId
      { existing.addAddrs info.data.addrs with userData := info.data.userData }
  | none => endpoints.insert info.endpointId info.data

def resolve (id : EndpointId) : Option EndpointInfo :=
  (endpoints.get id).map fun data => ⟨id, data⟩

/-- Whatever is resolved is accepted. -/
def Usable : Prop :=
  ∀ id, ∀ item ∈ endpoints.resolve id, (handleAddressLookupItem id item).isSome

end NodeMap

def EndpointInfo.Within (info : EndpointInfo) : Prop :=
  (handleAddressLookupItem info.endpointId info).isSome

def TransportAddr.bytes (addr : TransportAddr) : Nat :=
  match validateTransportAddr {} addr with
  | .ok bytes => bytes
  | .error _ => 0

/-- Different addresses of an endpoint are few enough, and short enough. -/
def InLimits (addrs : List TransportAddr) : Prop :=
  addrs.length ≤ 34 ∧ 32 + (addrs.map TransportAddr.bytes).sum ≤ 16 * 1024

/-- The stored addresses of the endpoint and the added ones are together within the limits. -/
def NodeMap.Fits (endpoints : NodeMap) (info : EndpointInfo) : Prop :=
  InLimits (((endpoints.get info.endpointId).elim [] EndpointData.addrs) ++ info.data.addrs).dedup

variable {endpoints : NodeMap} {info : EndpointInfo} {addrs retained : List TransportAddr}
  {index accounted : Nat}

/-- The loop ends well unless an address, their number or their size is out of limits. -/
lemma retain_isOk (hnew : (retained ++ addrs).Nodup) (hindex : index ≤ 34)
    (hbytes : accounted ≤ 16 * 1024) : (∃ all, retain {} index accounted retained addrs = .ok all) ↔
      (∀ addr ∈ addrs, validateTransportAddr {} addr = .ok addr.bytes) ∧
      index + addrs.length ≤ 34 ∧
      accounted + (addrs.map TransportAddr.bytes).sum ≤ 16 * 1024 := by
  induction addrs generalizing index accounted retained with
  | nil => simpa [retain, pure_ok] using ⟨hindex, hbytes⟩
  | cons addr addrs ih =>
    have hnot : addr ∉ retained := fun hmem =>
      (nodup_append.mp hnew).2.2 addr hmem addr mem_cons_self rfl
    rw [append_cons] at hnew
    simp only [retain, bind_ok, reject_ok, if_neg hnot, forall_mem_cons, length_cons,
      map_cons, sum_cons]
    have ih := @ih (retained ++ [addr]) (index + 1) (accounted + addr.bytes) hnew
    constructor
    · rintro ⟨all, -, hroom, bytes, hval, -, hsmall, hall⟩
      obtain rfl : addr.bytes = bytes := by rw [TransportAddr.bytes, hval]
      simp only [not_le, not_lt] at hroom hsmall
      obtain ⟨hvalid, hlen, hsum⟩ := (ih (by omega) hsmall).mp ⟨all, hall⟩
      exact ⟨⟨hval, hvalid⟩, by omega, by omega⟩
    · rintro ⟨⟨hval, hvalid⟩, hlen, hsum⟩
      obtain ⟨all, hall⟩ := (ih (by omega) (by omega)).mpr ⟨hvalid, by omega, by omega⟩
      exact ⟨all, (), not_le.mpr (by omega), addr.bytes, hval, (), not_lt.mpr (by omega), hall⟩

lemma accepted_iff : (handleAddressLookupItem info.endpointId info).isSome ↔
    (∀ addr ∈ info.data.addrs, validateTransportAddr {} addr = .ok addr.bytes) ∧
      InLimits info.data.addrs.dedup := by
  have hok := @retain_isOk info.data.addrs.dedup [] 0 info.endpointId.val.length
    (nodup_dedup _) (by omega) (by rw [info.endpointId.2]; omega)
  simp only [mem_dedup, Nat.zero_add, info.endpointId.2] at hok
  rw [InLimits, ← hok, handleAddressLookupItem, if_neg (not_not.mpr rfl)]
  simp only [EndpointAddr.tryFromParts, EndpointInfo.intoEndpointAddr, info.endpointId.2]
  cases retain {} 0 32 [] info.data.addrs.dedup with
  | error e => simp [bind, Except.bind]
  | ok all => simp [bind, Except.bind, pure, Except.pure]

lemma inLimits_congr {other : List TransportAddr} (h : ∀ addr, addr ∈ addrs ↔ addr ∈ other) :
    InLimits addrs.dedup ↔ InLimits other.dedup := by
  have hperm : addrs.dedup.Perm other.dedup :=
    (perm_ext_iff_of_nodup (nodup_dedup _) (nodup_dedup _)).mpr fun addr => by
      rw [mem_dedup, mem_dedup, h]
  rw [InLimits, InLimits, hperm.length_eq, (hperm.map _).sum_eq]

namespace NodeMap

lemma add_eq (endpoints : NodeMap) (info : EndpointInfo) : ∃ merged,
    endpoints.add info = endpoints.insert info.endpointId merged ∧ ∀ addr, addr ∈ merged.addrs ↔
      addr ∈ (endpoints.get info.endpointId).elim [] EndpointData.addrs ++ info.data.addrs := by
  unfold add
  cases endpoints.get info.endpointId with
  | none => exact ⟨_, rfl, fun _ => Iff.rfl⟩
  | some existing => exact ⟨_, rfl, fun _ => mem_eraseDups⟩

lemma usable_add (h : endpoints.Usable) (hin : info.Within) :
    (endpoints.add info).Usable ↔ endpoints.Fits info := by
  obtain ⟨merged, hadd, hmem⟩ := add_eq endpoints info
  have hvalid : ∀ addr ∈ merged.addrs, validateTransportAddr {} addr = .ok addr.bytes := by
    intro addr haddr
    rcases mem_append.mp ((hmem addr).mp haddr) with hold | hnew
    · cases hget : endpoints.get info.endpointId with
      | none => simp [hget] at hold
      | some existing =>
        have hitem := h info.endpointId ⟨info.endpointId, existing⟩ (by rw [resolve, hget]; rfl)
        exact (accepted_iff.mp hitem).1 addr (by simpa [hget] using hold)
    · exact (accepted_iff.mp hin).1 addr hnew
  have hself : (handleAddressLookupItem info.endpointId ⟨info.endpointId, merged⟩).isSome ↔
      endpoints.Fits info :=
    accepted_iff.trans ((and_iff_right hvalid).trans (inLimits_congr hmem))
  rw [hadd, ← hself]
  constructor
  · intro hall
    exact hall info.endpointId _ (by rw [resolve, Table.get_insert_self]; rfl)
  · intro hok id item hitem
    rw [resolve] at hitem
    by_cases hid : id = info.endpointId
    · rw [hid, Table.get_insert_self] at hitem
      cases hitem
      exact hid ▸ hok
    · rw [Table.get_insert_of_ne hid] at hitem
      exact h id item hitem

/-- The endpoint of an info is resolved to an item with all the addresses of the info. -/
def Has (endpoints : NodeMap) (info : EndpointInfo) : Prop :=
  ∃ item ∈ endpoints.resolve info.endpointId, info.data.addrs ⊆ item.data.addrs

lemma has_add {added : EndpointInfo} (h : endpoints.Has info ∨ info = added) :
    (endpoints.add added).Has info := by
  obtain ⟨merged, hadd, hmem⟩ := add_eq endpoints added
  unfold Has resolve
  by_cases hid : info.endpointId = added.endpointId
  · rw [hadd, hid, Table.get_insert_self]
    refine ⟨_, rfl, fun addr haddr => (hmem addr).mpr (mem_append.mpr ?_)⟩
    rcases h with ⟨item, hitem, hall⟩ | rfl
    · obtain ⟨existing, hget, rfl⟩ := Option.map_eq_some_iff.mp hitem
      rw [← hid, hget]
      exact .inl (hall haddr)
    · exact .inr haddr
  · rw [hadd, Table.get_insert_of_ne hid]
    exact h.resolve_right fun heq => hid (congrArg EndpointInfo.endpointId heq)

lemma has_run (infos : List EndpointInfo) : ∀ info ∈ infos, (run add endpoints infos).Has info := by
  induction infos using reverseRecOn with
  | nil => exact nofun
  | append_singleton infos last ih =>
    intro info hinfo
    rw [run_append]
    exact has_add ((mem_append.mp hinfo).imp (ih info) mem_singleton.mp)

/-- While infos within the limits are added, whatever is resolved is accepted
exactly if each of them fits to what is stored; and every endpoint that was added is resolved, with
all addresses that were added. -/
theorem usable_iff (infos : List EndpointInfo) (hin : ∀ info ∈ infos, info.Within) :
    (Throughout add Usable .empty infos ↔ Along add Fits .empty infos) ∧
      ∀ info ∈ infos, (run add .empty infos).Has info :=
  ⟨throughout_iff_along (fun _ h => h) (fun info hinfo _ h => (usable_add h (hin info hinfo)).mpr)
    (fun info hinfo _ h => (usable_add h (hin info hinfo)).mp) nofun,
    has_run infos⟩

def port (n : Nat) : TransportAddr :=
  .ip (.v4 ⟨[127, 0, 0, 1], rfl⟩ ⟨n % 2 ^ 16, Nat.mod_lt _ (by decide)⟩)

instance (info : EndpointInfo) : Decidable info.Within := inferInstanceAs (Decidable (_ = true))

instance (info : EndpointInfo) : Decidable (endpoints.Fits info) :=
  inferInstanceAs (Decidable (_ ∧ _))

theorem usable_two_ports : (run add .empty [⟨.zero 32, [port 1], none⟩,
    ⟨.zero 32, [port 2], none⟩]).Usable :=
  ((usable_iff _ (by decide +kernel)).1.mpr (by decide +kernel)).last

/-- With one address more than the limit, none of them is usable. -/
theorem not_usable_ports :
    (∀ info ∈ [⟨.zero 32, (range 34).map port, none⟩, ⟨.zero 32, [port 34], none⟩],
      EndpointInfo.Within info) ∧
    ¬ (run add .empty [⟨.zero 32, (range 34).map port, none⟩,
      ⟨.zero 32, [port 34], none⟩]).Usable := by
  refine ⟨by decide +kernel, fun h => ?_⟩
  have hitem := h (.zero 32) _ rfl
  revert hitem
  decide +kernel

end NodeMap
end Krikos.Socket
