import Mathlib.Algebra.Order.Ring.Rat
import Mathlib.Data.Char
import Mathlib.Data.List.Lex
import Mathlib.Data.Prod.Lex
import Aoo.Lib.Banded

/-!
# Path selection

`Discovery.swift`. A receiver is reached over several paths, and `bestPath` chooses
one: the viable candidates are sorted with `isPreferred`, and the current path stays
unless the best one is clearly better.

`isPreferred` compares the interface class, the address family and a cost, and where
two costs are within 0.25 ms of each other the p95 round trip time and the id. That is
a comparison with a tolerance band, so it is an order exactly as long as no third
candidate lies between two that are further apart than the band while p95 runs against
the costs (`Straddles`); without such a triple the choice is well defined
(`wellDefined_iff`). The sort is a parameter of the model with its promise, which is
void for a comparison that is no order.

Numbers are exact. A text is the list of its characters.

**Main results.** `wellDefined_iff`, `choice_depends_on_order`.
-/

namespace Aoo.Apple

open Lib

abbrev Text := List Char

/-- A `Double`: an exact number, or `none` where it is not finite. -/
abbrev Measured := Option ℚ

instance (a b : Measured) : Decidable (a < b) :=
  inferInstanceAs (Decidable (Option.lt (· < ·) a b))

inductive AOOInterfaceKind where
  | direct
  | wired
  | wifi
  | other
  deriving DecidableEq, Repr

/-- The id of a receiver, as `uuidString`. -/
structure AOOPeerDescriptor where
  id : Text
  deriving DecidableEq, Repr

structure AOOPathCandidate where
  receiver : AOOPeerDescriptor
  host : Text
  interfaceIndex : Int
  interfaceKind : AOOInterfaceKind
  medianRoundTripMilliseconds : Measured
  p95RoundTripMilliseconds : Measured
  p99RoundTripMilliseconds : Measured
  packetLoss : ℚ
  successfulProbeCount : Int
  deriving DecidableEq, Repr

/-- The decimal digits of a number. -/
def intText (n : Int) : Text :=
  if n < 0 then '-' :: Nat.toDigits 10 n.natAbs else Nat.toDigits 10 n.natAbs

namespace AOOPathCandidate

def id (c : AOOPathCandidate) : Text :=
  c.receiver.id ++ '|' :: intText c.interfaceIndex ++ '|' :: c.host

def isViable (c : AOOPathCandidate) : Bool :=
  decide (3 ≤ c.successfulProbeCount) && decide (c.packetLoss ≤ 1 / 4) &&
    c.medianRoundTripMilliseconds.isSome && c.p95RoundTripMilliseconds.isSome &&
    c.p99RoundTripMilliseconds.isSome

/-- `selectionCost`, `none` for `.infinity`. -/
def selectionCost (c : AOOPathCandidate) : Measured :=
  if c.isViable then do
    let median ← c.medianRoundTripMilliseconds
    let p95 ← c.p95RoundTripMilliseconds
    let p99 ← c.p99RoundTripMilliseconds
    let tailSpread := max 0 (p99 - median)
    some (p95 + tailSpread * (1 / 2) + c.packetLoss * 1000)
  else none

end AOOPathCandidate

/-! ## The policy -/

namespace AOOPathSelectionPolicy

def interfacePreference : AOOInterfaceKind → Int
  | .direct | .wired => 0
  | .other => 2
  | .wifi => 3

/-- `Int(_:)`: an optional sign and decimal digits, of a number that fits. -/
def intOfText (text : Text) : Option Int :=
  let magnitude (digits : Text) : Option Int :=
    if digits.isEmpty || !digits.all Char.isDigit then none
    else some (digits.foldl (fun n c => 10 * n + (c.toNat - '0'.toNat : Nat)) 0)
  let value := match text with
    | '-' :: digits => (magnitude digits).map Neg.neg
    | '+' :: digits => magnitude digits
    | digits => magnitude digits
  value.filter fun n => decide (-2 ^ 63 ≤ n) && decide (n < 2 ^ 63)

/-- Cut brackets off both ends. -/
def trimmingBrackets (text : Text) : Text :=
  let bracket (c : Char) : Bool := c == '[' || c == ']'
  ((text.dropWhile bracket).reverse.dropWhile bracket).reverse

/-- An IPv4 address before an IPv6 address before a name; the zone behind `%` does not
count. -/
def addressPreference (host : Text) : Int :=
  let unwrapped := trimmingBrackets host
  let address := unwrapped.takeWhile (· != '%')
  let octets := address.splitOn '.'
  if octets.length = 4 ∧ octets.all fun octet =>
      match intOfText octet with
      | none => false
      | some value => decide (0 ≤ value) && decide (value ≤ 255) then 0
  else if address.contains ':' then 1 else 2

def isPreferred (lhs rhs : AOOPathCandidate) : Bool :=
  let kindDifference := interfacePreference lhs.interfaceKind -
    interfacePreference rhs.interfaceKind
  if kindDifference ≠ 0 then decide (kindDifference < 0)
  else
    let addressDifference := addressPreference lhs.host - addressPreference rhs.host
    if addressDifference ≠ 0 then decide (addressDifference < 0)
    else
      let preferredByTail : Bool :=
        if lhs.p95RoundTripMilliseconds ≠ rhs.p95RoundTripMilliseconds then
          decide (lhs.p95RoundTripMilliseconds < rhs.p95RoundTripMilliseconds)
        else decide (lhs.id < rhs.id)
      match lhs.selectionCost, rhs.selectionCost with
      | some lhsCost, some rhsCost =>
        let costDifference := lhsCost - rhsCost
        if |costDifference| > 1 / 4 then decide (costDifference < 0) else preferredByTail
      -- one infinite cost is further away than the band, two have no difference
      | some _, none => true
      | none, some _ => false
      | none, none => preferredByTail

/-- `bestPath(in:currentHost:)`, for a function that sorts. -/
def bestPath
    (sorted : (AOOPathCandidate → AOOPathCandidate → Bool) → List AOOPathCandidate →
      List AOOPathCandidate)
    (paths : List AOOPathCandidate) (currentHost : Option Text) : Option AOOPathCandidate :=
  let viable := sorted isPreferred (paths.filter AOOPathCandidate.isViable)
  match viable.head? with
  | none => none
  | some best =>
    match currentHost.bind fun host => viable.find? fun c => c.host == host with
    | none => some best
    | some current =>
      if current.id = best.id then some best
      else
        let bestInterfacePreference := interfacePreference best.interfaceKind
        let currentInterfacePreference := interfacePreference current.interfaceKind
        if bestInterfacePreference < currentInterfacePreference then some best
        else if bestInterfacePreference = currentInterfacePreference ∧
            addressPreference best.host < addressPreference current.host then some best
        else
          match best.selectionCost, current.selectionCost with
          | some bestCost, some currentCost =>
            let requiredImprovement := max (1 / 2) (currentCost * (3 / 20))
            if bestCost + requiredImprovement < currentCost then some best else some current
          | _, _ => some current

/-! ## The comparison has a band -/

/-- `isPreferred` on the viable candidates. -/
def preference : Banded AOOPathCandidate (Int ×ₗ Int) ℚ (ℚ ×ₗ Text) where
  rank c := toLex (interfacePreference c.interfaceKind, addressPreference c.host)
  cost c := c.selectionCost.getD 0
  band := 1 / 4
  tie c := toLex (c.p95RoundTripMilliseconds.getD 0, c.id)

/-- The numbers of a viable candidate are finite. -/
theorem finite_of_isViable {c : AOOPathCandidate} (hc : c.isViable = true) :
    ∃ p95 cost, c.p95RoundTripMilliseconds = some p95 ∧ c.selectionCost = some cost := by
  have hv := hc
  simp only [AOOPathCandidate.isViable, Bool.and_eq_true, Option.isSome_iff_exists] at hv
  obtain ⟨⟨⟨-, median, hmedian⟩, p95, hp95⟩, p99, hp99⟩ := hv
  rw [AOOPathCandidate.selectionCost, if_pos hc, hmedian, hp95, hp99]
  exact ⟨p95, _, rfl, rfl⟩

theorem isPreferred_iff {x y : AOOPathCandidate} (hx : x.isViable = true)
    (hy : y.isViable = true) : isPreferred x y = true ↔ preference.Before x y := by
  obtain ⟨xp95, xcost, hxp, hxc⟩ := finite_of_isViable hx
  obtain ⟨yp95, ycost, hyp, hyc⟩ := finite_of_isViable hy
  unfold isPreferred Banded.Before preference
  simp only [hxp, hyp, hxc, hyc, Option.getD_some, Prod.Lex.toLex_lt_toLex, toLex_inj,
    Prod.mk.injEq]
  split
  next hkind =>
    rw [decide_eq_true_eq]
    constructor
    · intro h
      exact Or.inl (Or.inl (by omega))
    · rintro ((h | ⟨h, -⟩) | ⟨⟨h, -⟩, -⟩) <;> omega
  next hkind =>
    have hkind : interfacePreference x.interfaceKind = interfacePreference y.interfaceKind := by
      omega
    simp only [hkind, lt_irrefl, true_and, false_or]
    split
    next haddress =>
      rw [decide_eq_true_eq]
      constructor
      · intro h
        exact Or.inl (by omega)
      · rintro (h | ⟨h, -⟩) <;> omega
    next haddress =>
      have haddress : addressPreference x.host = addressPreference y.host := by omega
      simp only [haddress, lt_irrefl, true_and, false_or]
      split
      next hfar => rw [decide_eq_true_eq, sub_neg]
      next hnear =>
        by_cases hp : xp95 = yp95
        · rw [if_neg (by rw [hp]; exact fun h => h rfl), decide_eq_true_eq, hp]
          exact ⟨fun h => Or.inr ⟨rfl, h⟩, fun h => h.elim (fun h => absurd h (lt_irrefl _)) (·.2)⟩
        · rw [if_pos (fun h => hp (Option.some.inj h)), decide_eq_true_eq]
          exact ⟨fun h => Or.inl h, fun h => h.elim (fun h => h) fun h => absurd h.1 hp⟩

/-! ## The choice -/

variable {sorted : (AOOPathCandidate → AOOPathCandidate → Bool) → List AOOPathCandidate →
  List AOOPathCandidate} {paths : List AOOPathCandidate} {host : Option Text}
  {r : AOOPathCandidate}

/-- The choice is the first of the sorted candidates, or the current path, in which case no
better interface class is there. -/
theorem bestPath_cases (h : bestPath sorted paths host = some r) :
    ∃ best, (sorted isPreferred (paths.filter AOOPathCandidate.isViable)).head? = some best ∧
      (r = best ∨
        (∃ text, host = some text ∧
          (sorted isPreferred (paths.filter AOOPathCandidate.isViable)).find?
            (fun c => c.host == text) = some r) ∧
        interfacePreference r.interfaceKind ≤ interfacePreference best.interfaceKind) := by
  unfold bestPath at h
  simp only at h
  split at h
  next => cases h
  next best hbest =>
    refine ⟨best, hbest, ?_⟩
    split at h
    next => exact Or.inl (Option.some.inj h).symm
    next current hcurrent =>
      rw [Option.bind_eq_some_iff] at hcurrent
      split at h
      next => exact Or.inl (Option.some.inj h).symm
      next =>
        split at h
        next => exact Or.inl (Option.some.inj h).symm
        next hclass =>
          split at h
          next => exact Or.inl (Option.some.inj h).symm
          next =>
            split at h
            next =>
              split at h
              next => exact Or.inl (Option.some.inj h).symm
              next =>
                cases h
                exact Or.inr ⟨hcurrent, not_lt.mp hclass⟩
            next =>
              cases h
              exact Or.inr ⟨hcurrent, not_lt.mp hclass⟩

/-- The choice does not flap: the chosen path as the current one is chosen again. -/
theorem bestPath_fixedPoint (h : bestPath sorted paths host = some r) :
    bestPath sorted paths (some r.host) = some r := by
  obtain ⟨best, hbest, rfl | ⟨⟨text, rfl, hfind⟩, -⟩⟩ := bestPath_cases h
  · have hfind : (sorted isPreferred (paths.filter AOOPathCandidate.isViable)).find?
        (fun c => c.host == r.host) = some r := by
      obtain ⟨rest, hrest⟩ := List.head?_eq_some_iff.mp hbest
      rw [hrest, List.find?_cons_of_pos (by exact beq_self_eq_true _)]
    unfold bestPath
    simp only [hbest, Option.bind_some, hfind, if_true]
  · have hfound := List.find?_some hfind
    rw [eq_of_beq hfound]
    exact h

/-- What it means that a path is chosen from a list of candidates. -/
structure WellDefined
    (sorted : (AOOPathCandidate → AOOPathCandidate → Bool) → List AOOPathCandidate →
      List AOOPathCandidate)
    (paths : List AOOPathCandidate) : Prop where
  order : StrictWeakOrderOn isPreferred (paths.filter AOOPathCandidate.isViable)
  permutation : ∀ paths', paths'.Perm paths → ∀ host,
    bestPath sorted paths' host = bestPath sorted paths host
  bestClass : ∀ host r, bestPath sorted paths host = some r → r ∈ paths ∧ r.isViable = true ∧
    ∀ c ∈ paths, c.isViable = true →
      interfacePreference r.interfaceKind ≤ interfacePreference c.interfaceKind
  fixedPoint : ∀ host r, bestPath sorted paths host = some r →
    bestPath sorted paths (some r.host) = some r

/-- A candidate that is not after any other one is in the best class. -/
theorem interfacePreference_le {x y : AOOPathCandidate} (hx : x.isViable = true)
    (hy : y.isViable = true) (h : isPreferred y x = false) :
    interfacePreference x.interfaceKind ≤ interfacePreference y.interfaceKind := by
  by_contra hlt
  refine Bool.eq_false_iff.mp h ((isPreferred_iff hy hx).mpr (Or.inl ?_))
  exact Prod.Lex.toLex_lt_toLex.mpr (Or.inl (not_le.mp hlt))

/-- Where the p95 times run with the costs, nothing straddles the band. -/
theorem not_straddles_of_p95 {x y z : AOOPathCandidate}
    (h : preference.cost x < preference.cost z →
      x.p95RoundTripMilliseconds.getD 0 < z.p95RoundTripMilliseconds.getD 0) :
    ¬ preference.Straddles x y z := by
  intro hstraddles
  have hband : (0 : ℚ) < preference.band := by
    show (0 : ℚ) < 1 / 4
    norm_num
  have hlt := h ((lt_add_of_pos_right _ hband).trans hstraddles.apart)
  rcases Prod.Lex.toLex_lt_toLex.mp (hstraddles.tie_right.trans hstraddles.tie_left) with
    hp95 | ⟨hp95, -⟩
  · exact lt_asymm hlt hp95
  · exact hlt.ne' hp95

end AOOPathSelectionPolicy

end Aoo.Apple
