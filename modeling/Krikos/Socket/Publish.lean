import Krikos.Lib.Run
import Mathlib.Data.List.Basic

/-!
# Socket.Publish

The registry of the address lookup services (`address_lookup.rs`). A publish walks the services and
then records the data; a registration reads the recorded data and then joins the services. The
services agree with the record if these calls do not overlap (`services_agree`), and need not if
they do (`joins_without_data`).
-/

namespace Krikos.Socket

open Lib

/-- The registry, with the calls that have taken the first of their two steps. A service is given by
the data it was last given. -/
structure AddressLookupServices (D : Type) where
  services : List (Option D)
  lastData : Option D
  addrFilter : Option (D → D)
  publishing : List D
  adding : List (Option D)

/-- The steps of the calls. The second ones name their call by its position. -/
inductive LookupStep (D : Type) where
  | walk (data : D)
  | record (i : Nat)
  | read
  | join (i : Nat)

namespace AddressLookupServices
variable {D : Type} {s : AddressLookupServices D} {event : LookupStep D}

def new (addrFilter : Option (D → D)) : AddressLookupServices D := ⟨[], none, addrFilter, [], []⟩

def filtered (s : AddressLookupServices D) (data : D) : D :=
  match s.addrFilter with
  | some filter => filter data
  | none => data

-- A publish holds the lock of the services until it returns, so no service joins meanwhile.
def step (s : AddressLookupServices D) : LookupStep D → AddressLookupServices D
  | .walk data =>
    { s with
      services := s.services.map fun _ => some (s.filtered data)
      publishing := s.filtered data :: s.publishing }
  | .record i =>
    match s.publishing[i]? with
    | none => s
    | some data => { s with lastData := some data, publishing := s.publishing.eraseIdx i }
  | .read => { s with adding := s.lastData :: s.adding }
  | .join i =>
    match s.publishing, s.adding[i]? with
    | [], some given =>
      { s with services := s.services ++ [given], adding := s.adding.eraseIdx i }
    | _, _ => s

/-- A publish starts when no call is under way, a registration when no publish is. -/
def Alone (s : AddressLookupServices D) : LookupStep D → Prop
  | .walk _ => s.publishing = [] ∧ s.adding = []
  | .read => s.publishing = []
  | _ => True

/-- What the services were given last is what is recorded, or what the one publish is about to
record. -/
def Agrees (s : AddressLookupServices D) : Prop :=
  (s.publishing = [] ∧ ∀ given ∈ s.services ++ s.adding, given = s.lastData) ∨
    ∃ data, s.publishing = [data] ∧ s.adding = [] ∧ ∀ given ∈ s.services, given = some data

lemma Agrees.step (h : s.Agrees) (halone : s.Alone event) : (s.step event).Agrees := by
  cases event with
  | walk data =>
    obtain ⟨hpub, hadd⟩ := halone
    exact .inr ⟨s.filtered data, by simp [AddressLookupServices.step, hpub, hadd]⟩
  | record i =>
    rcases h with h | ⟨data, hpub, hadd, hall⟩
    · exact .inl (by simpa [AddressLookupServices.step, h.1] using h)
    · cases i with
      | zero => exact .inl (by simpa [AddressLookupServices.step, hpub, hadd] using hall)
      | succ i => exact .inr ⟨data, by simpa [AddressLookupServices.step, hpub, hadd] using hall⟩
  | read =>
    rcases h with ⟨hpub, hall⟩ | ⟨data, hpub, -⟩
    · refine .inl ⟨hpub, fun given hgiven => ?_⟩
      rcases List.mem_append.mp hgiven with hold | hnew
      · exact hall given (List.mem_append_left _ hold)
      · rcases List.mem_cons.mp hnew with rfl | hold
        · rfl
        · exact hall given (List.mem_append_right _ hold)
    · cases hpub.symm.trans halone
  | join i =>
    rcases h with ⟨hpub, hall⟩ | ⟨data, hpub, hadd, hall⟩
    · cases hi : s.adding[i]? with
      | none => exact .inl (by simpa [AddressLookupServices.step, hpub, hi] using hall)
      | some given =>
        have hgiven := hall given (List.mem_append_right _ (List.mem_of_getElem? hi))
        simp only [AddressLookupServices.step, hpub, hi]
        refine .inl ⟨rfl, fun other hother => ?_⟩
        simp only [List.append_assoc, List.mem_append, List.mem_singleton] at hother
        rcases hother with hold | rfl | hold
        · exact hall other (List.mem_append_left _ hold)
        · exact hgiven
        · exact hall other (List.mem_append_right _ (List.mem_of_mem_eraseIdx hold))
    · exact .inr ⟨data, by simpa [AddressLookupServices.step, hpub, hadd] using hall⟩

/-- Once all calls have returned, every service was last given the recorded data, if the calls did
not overlap. -/
theorem services_agree (filter : Option (D → D)) (events : List (LookupStep D))
    (halone : Along step Alone (new filter) events)
    (hpub : (run step (new filter) events).publishing = []) :
    ∀ given ∈ (run step (new filter) events).services,
      given = (run step (new filter) events).lastData := by
  have hnew : (new filter).Agrees := .inl (by simp [new])
  rcases (throughout_of_along (fun _ _ => Agrees.step) hnew halone).last with h | ⟨data, hdata, -⟩
  · exact fun given hgiven => h.2 given (List.mem_append_left _ hgiven)
  · cases hdata.symm.trans hpub

/-- Two services join, the second one after data was published, and more data is. -/
def twoJoin : List (LookupStep Nat) :=
  [.read, .join 0, .walk 1, .record 0, .read, .join 0, .walk 2, .record 0]

theorem services_agree_two : (run step (new none) twoJoin).services = [some 2, some 2] ∧
    ∀ given ∈ (run step (new none) twoJoin).services, given = some 2 :=
  ⟨rfl, services_agree none _ (by simp [twoJoin, Along, Alone, step, new]) rfl⟩

/-- A service that reads the record before a publish and joins after it never gets the data. -/
theorem joins_without_data :
    let s := run step (new none) [.read, .walk 1, .record 0, .join 0]
    s.publishing = [] ∧ s.adding = [] ∧ s.services = [none] ∧ s.lastData = some 1 := by
  decide

end AddressLookupServices
end Krikos.Socket
