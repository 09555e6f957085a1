import ConcurrencyLint.Node.Traversal
import ConcurrencyLint.Scope.Basic
import Mathlib.Data.List.Infix
import Mathlib.Data.List.Nodup

/-!
# Places in a tree

An address leads from the root of a tree to one of its nodes, so that two equal nodes at different
places are told apart. The owner of a place is the nearest node at it or above it that opens a scope.
Facts about a tree come from facts about the forest of its children; a place in a forest is the index
of a tree and an address in this tree.
-/

namespace ConcurrencyLint

/-! ## Lists with their past -/

/-- Maps a list; the function is also given the elements up to and including the one it maps. -/
def mapPast {α β : Type} (f : List α → α → β) : List α → List β
  | [] => []
  | x :: xs => f [x] x :: mapPast (fun past => f (x :: past)) xs

theorem mapPast_append {α β : Type} (f : List α → α → β) (xs ys : List α) :
    mapPast f (xs ++ ys) = mapPast f xs ++ mapPast (fun past => f (xs ++ past)) ys := by
  induction xs generalizing f with
  | nil => rfl
  | cons x xs ih => simp only [List.cons_append, mapPast, ih]

theorem mapPast_map {α β γ : Type} (f : List β → β → γ) (g : α → β) (xs : List α) :
    mapPast f (xs.map g) = mapPast (fun past x => f (past.map g) (g x)) xs := by
  induction xs generalizing f with
  | nil => rfl
  | cons x xs ih => simp only [List.map_cons, mapPast, ih, List.map_nil]

/-- What ignores the past is a plain mapping. -/
theorem map_mapPast {α β γ : Type} {f : List α → α → β} {g : β → γ} {h : α → γ}
    (heq : ∀ past x, g (f past x) = h x) (xs : List α) : (mapPast f xs).map g = xs.map h := by
  induction xs generalizing f with
  | nil => rfl
  | cons x xs ih => rw [mapPast, List.map_cons, List.map_cons, heq, ih fun _ => heq _]

theorem getElem?_mapPast {α β : Type} (f : List α → α → β) (xs : List α) (i : Nat) :
    (mapPast f xs)[i]? = xs[i]?.map (f (xs.take (i + 1))) := by
  induction xs generalizing f i with
  | nil => simp [mapPast]
  | cons x xs ih =>
      cases i with
      | zero => simp [mapPast]
      | succ i => simp [mapPast, ih]

/-! ## Addresses -/

/-- The children to go to from the root, one after the other. -/
abbrev Address := List Nat

/-- A place in a forest: the index of a tree and an address in this tree. -/
structure Place where
  tree : Nat
  address : Address
  deriving DecidableEq

namespace Place

def first (a : Address) : Place := ⟨0, a⟩

def later (p : Place) : Place := ⟨p.tree + 1, p.address⟩

/-- The address of the place in a tree whose children are the forest. -/
def below (p : Place) : Address := p.tree :: p.address

@[simp] theorem below_ne_nil (p : Place) : p.below ≠ [] := List.cons_ne_nil _ _

@[simp] theorem below_inj {p q : Place} : p.below = q.below ↔ p = q := by
  cases p; cases q
  simp [below]

@[simp] theorem first_inj {a b : Address} : first a = first b ↔ a = b := by simp [first]

@[simp] theorem later_inj {p q : Place} : p.later = q.later ↔ p = q := by
  cases p; cases q
  simp [later]

@[simp] theorem first_ne_later (a : Address) (p : Place) : first a ≠ p.later := by
  simp [first, later]

@[simp] theorem later_ne_first (a : Address) (p : Place) : p.later ≠ first a := by
  simp [first, later]

end Place

namespace Node

def at? : Node → Address → Option Node
  | n, [] => some n
  | n, i :: a => n.children[i]?.bind (·.at? a)

def atAll? (ns : List Node) (p : Place) : Option Node := ns[p.tree]?.bind (·.at? p.address)

mutual

/-- The addresses of a tree, each before those below it and these from left to right. -/
def addresses : Node → List Address
  | ⟨_, _, children⟩ => [] :: (addressesAll children).map Place.below

def addressesAll : List Node → List Place
  | [] => []
  | n :: ns => n.addresses.map Place.first ++ (addressesAll ns).map Place.later

end

mutual

/-- The addresses of a tree, each after those below it and these from left to right. -/
def addressesUp : Node → List Address
  | ⟨_, _, children⟩ => (addressesUpAll children).map Place.below ++ [[]]

def addressesUpAll : List Node → List Place
  | [] => []
  | n :: ns => n.addressesUp.map Place.first ++ (addressesUpAll ns).map Place.later

end

theorem addresses_eq (n : Node) :
    n.addresses = [] :: (addressesAll n.children).map Place.below := by
  cases n
  rw [addresses]

@[simp] theorem at?_nil (n : Node) : n.at? [] = some n := by rw [at?]

@[simp] theorem at?_below (n : Node) (p : Place) : n.at? p.below = atAll? n.children p := by
  rw [Place.below, at?, atAll?]

@[simp] theorem atAll?_first (n : Node) (ns : List Node) (a : Address) :
    atAll? (n :: ns) (.first a) = n.at? a := by simp [atAll?, Place.first]

@[simp] theorem atAll?_later (n : Node) (ns : List Node) (p : Place) :
    atAll? (n :: ns) p.later = atAll? ns p := by simp [atAll?, Place.later]

mutual

theorem mem_addresses : (n : Node) → (a : Address) → (a ∈ n.addresses ↔ (n.at? a).isSome)
  | ⟨kind, span, children⟩, [] => by simp [addresses]
  | ⟨kind, span, children⟩, i :: a => by
      have hbelow : (i :: a : Address) = Place.below ⟨i, a⟩ := rfl
      simp only [addresses, hbelow, List.mem_cons, Place.below_ne_nil, false_or, List.mem_map,
        Place.below_inj, exists_eq_right, at?_below]
      exact mem_addressesAll children ⟨i, a⟩

theorem mem_addressesAll : (ns : List Node) → (p : Place) →
    (p ∈ addressesAll ns ↔ (atAll? ns p).isSome)
  | [], p => by simp [addressesAll, atAll?]
  | n :: ns, ⟨0, a⟩ => by
      have hfirst : (⟨0, a⟩ : Place) = .first a := rfl
      simp only [addressesAll, hfirst, List.mem_append, List.mem_map, Place.first_inj,
        exists_eq_right, Place.later_ne_first, and_false, exists_false, or_false, atAll?_first]
      exact mem_addresses n a
  | n :: ns, ⟨i + 1, a⟩ => by
      have hlater : (⟨i + 1, a⟩ : Place) = Place.later ⟨i, a⟩ := rfl
      simp only [addressesAll, hlater, List.mem_append, List.mem_map, Place.later_inj,
        exists_eq_right, Place.first_ne_later, and_false, exists_false, false_or, atAll?_later]
      exact mem_addressesAll ns ⟨i, a⟩

end

mutual

theorem nodup_addresses : (n : Node) → n.addresses.Nodup
  | ⟨kind, span, children⟩ => by
      rw [addresses, List.nodup_cons]
      refine ⟨by simp, (nodup_addressesAll children).map fun p q h => ?_⟩
      exact Place.below_inj.mp h

theorem nodup_addressesAll : (ns : List Node) → (addressesAll ns).Nodup
  | [] => by simp [addressesAll]
  | n :: ns => by
      rw [addressesAll, List.nodup_append']
      refine ⟨(nodup_addresses n).map fun a b h => Place.first_inj.mp h,
        (nodup_addressesAll ns).map fun p q h => Place.later_inj.mp h, ?_⟩
      intro p hfirst hlater
      obtain ⟨a, _, rfl⟩ := List.mem_map.mp hfirst
      obtain ⟨q, _, hq⟩ := List.mem_map.mp hlater
      exact Place.later_ne_first a q hq

end

mutual

theorem addressesUp_perm : (n : Node) → n.addressesUp.Perm n.addresses
  | ⟨kind, span, children⟩ => by
      rw [addressesUp, addresses]
      exact List.perm_append_singleton _ _ |>.trans (((addressesUpAll_perm children).map _).cons _)

theorem addressesUpAll_perm : (ns : List Node) → (addressesUpAll ns).Perm (addressesAll ns)
  | [] => by simp [addressesAll, addressesUpAll]
  | n :: ns => by
      rw [addressesUpAll, addressesAll]
      exact ((addressesUp_perm n).map _).append ((addressesUpAll_perm ns).map _)

end

mutual

theorem map_at?_addresses : (n : Node) → n.addresses.map n.at? = n.preorder.map some
  | ⟨kind, span, children⟩ => by
      have hbelow : at? ⟨kind, span, children⟩ ∘ Place.below = atAll? children :=
        funext (at?_below _)
      rw [addresses, preorder, List.map_cons, List.map_map, hbelow, map_atAll?_addressesAll children,
        at?_nil, List.map_cons]

theorem map_atAll?_addressesAll : (ns : List Node) →
    (addressesAll ns).map (atAll? ns) = (preorderAll ns).map some
  | [] => by simp [addressesAll, preorderAll]
  | n :: ns => by
      have hfirst : atAll? (n :: ns) ∘ Place.first = n.at? := funext (atAll?_first n ns)
      have hlater : atAll? (n :: ns) ∘ Place.later = atAll? ns := funext (atAll?_later n ns)
      rw [addressesAll, preorderAll, List.map_append, List.map_map, List.map_map, hfirst, hlater,
        map_at?_addresses n, map_atAll?_addressesAll ns, List.map_append]

end

theorem length_addresses (n : Node) : n.addresses.length = n.preorder.length := by
  rw [← List.length_map n.at?, n.map_at?_addresses, List.length_map]

/-! ## Owners -/

variable {points : EntryPoints}

/-- The kind of the scope that the node at an address opens. -/
def opensAt? (points : EntryPoints) (n : Node) (a : Address) : Option ScopeKind :=
  (n.at? a).bind (·.opens points)

/-- The address of the nearest node, at the given address or above it, that opens a scope. -/
def owner? (points : EntryPoints) (n : Node) (a : Address) : Option Address :=
  a.inits.reverse.find? fun b => (n.opensAt? points b).isSome

def ownerAll? (points : EntryPoints) (ns : List Node) (p : Place) : Option Place :=
  (ns[p.tree]?.bind (·.owner? points p.address)).map (Place.mk p.tree)

theorem owner?_nil (n : Node) : n.owner? points [] = (n.opens points).map fun _ => [] := by
  cases h : n.opens points <;> simp [owner?, opensAt?, h]

/-- What stands below a node belongs to the node unless it has an owner below the node. -/
theorem owner?_below (n : Node) (p : Place) : n.owner? points p.below =
    ((ownerAll? points n.children p).map Place.below).or (n.owner? points []) := by
  obtain ⟨i, a⟩ := p
  have hsplit : n.owner? points (i :: a) = ((a.inits.reverse.find? fun b =>
      (n.opensAt? points (i :: b)).isSome).map (i :: ·)).or (n.owner? points []) := by
    simp only [owner?, List.inits, List.reverse_cons, ← List.map_reverse, List.find?_append,
      List.find?_map, Function.comp_def, List.find?_singleton, List.reverse_nil, List.nil_append]
  have hat (b : Address) : n.at? (i :: b) = n.children[i]?.bind (·.at? b) := n.at?_below ⟨i, b⟩
  rw [Place.below, hsplit, ownerAll?]
  cases hc : n.children[i]? with
  | none =>
      have hnone : (a.inits.reverse.find? fun b => (n.opensAt? points (i :: b)).isSome) = none := by
        simp [opensAt?, hat, hc]
      simp [hnone]
  | some c => simp [opensAt?, hat, owner?, hc, Function.comp_def, Place.below]

@[simp] theorem ownerAll?_first (n : Node) (ns : List Node) (a : Address) :
    ownerAll? points (n :: ns) (.first a) = (n.owner? points a).map Place.first := by
  simp only [ownerAll?, Place.first, List.getElem?_cons_zero, Option.bind_some]
  rfl

@[simp] theorem ownerAll?_later (n : Node) (ns : List Node) (p : Place) :
    ownerAll? points (n :: ns) p.later = (ownerAll? points ns p).map Place.later := by
  simp [ownerAll?, Place.later, Function.comp_def]

/-! ## Counting spawns -/

/-- How many of the given addresses hold a task spawn with the given owner. -/
def spawnsOf (points : EntryPoints) (n : Node) (owner : Option Address) (among : List Address) :
    Nat :=
  among.countP fun a => (n.at? a).any isTaskSpawn && n.owner? points a == owner

def spawnsOfAll (points : EntryPoints) (ns : List Node) (owner : Option Place)
    (among : List Place) : Nat :=
  among.countP fun p => (atAll? ns p).any isTaskSpawn && ownerAll? points ns p == owner

theorem spawnsOf_cons (n : Node) (owner : Option Address) (ps : List Place) :
    n.spawnsOf points owner ([] :: ps.map Place.below) =
      (n.isTaskSpawn && n.owner? points [] == owner).toNat +
      ps.countP (fun p => (atAll? n.children p).any isTaskSpawn &&
        ((ownerAll? points n.children p).map Place.below).or (n.owner? points []) == owner) := by
  simp only [spawnsOf, List.countP_cons, at?_nil, Option.any_some, List.countP_map,
    Function.comp_def, at?_below, owner?_below]
  rw [Nat.add_comm]
  cases n.isTaskSpawn && n.owner? points [] == owner <;> simp

section

variable {n : Node} {kind : ScopeKind} (ps : List Place)

/-- A scope counts its own node, if that is a spawn, and the spawns below with no owner there. -/
theorem spawnsOf_self_of_opens (h : n.opens points = some kind) :
    n.spawnsOf points (some []) ([] :: ps.map Place.below) =
      n.isTaskSpawn.toNat + spawnsOfAll points n.children none ps := by
  rw [spawnsOf_cons, owner?_nil, h, spawnsOfAll]
  congr 1
  · simp
  · refine List.countP_congr fun p _ => ?_
    cases ownerAll? points n.children p <;> simp

theorem spawnsOf_none_of_opens (h : n.opens points = some kind) :
    n.spawnsOf points none ([] :: ps.map Place.below) = 0 := by
  simp [spawnsOf_cons, owner?_nil, h]

theorem spawnsOf_none_of_not_opens (h : n.opens points = none) :
    n.spawnsOf points none ([] :: ps.map Place.below) =
      n.isTaskSpawn.toNat + spawnsOfAll points n.children none ps := by
  simp [spawnsOf_cons, owner?_nil, h, spawnsOfAll]

/-- What an owner below a node counts is not changed by the node. -/
theorem spawnsOf_below (n : Node) (q : Place) :
    n.spawnsOf points (some q.below) ([] :: ps.map Place.below) =
      spawnsOfAll points n.children (some q) ps := by
  have hself : ((n.opens points).map fun _ => ([] : Address)) ≠ some q.below := by
    cases n.opens points <;> simp [Ne.symm]
  rw [spawnsOf_cons, owner?_nil, spawnsOfAll, beq_eq_false_iff_ne.mpr hself, Bool.and_false,
    Bool.toNat_false, Nat.zero_add]
  refine List.countP_congr fun p _ => ?_
  cases ownerAll? points n.children p <;> simp [hself]

end

section

variable (n : Node) (ns : List Node) (as : List Address) (ps : List Place)

theorem spawnsOfAll_first (owner : Option Address) :
    spawnsOfAll points (n :: ns) (owner.map Place.first) (as.map Place.first) =
      n.spawnsOf points owner as := by
  rw [spawnsOfAll, List.countP_map, spawnsOf]
  refine List.countP_congr fun a _ => ?_
  cases owner <;> cases ho : n.owner? points a <;> simp [ho]

theorem spawnsOfAll_later (owner : Option Place) :
    spawnsOfAll points (n :: ns) (owner.map Place.later) (ps.map Place.later) =
      spawnsOfAll points ns owner ps := by
  rw [spawnsOfAll, List.countP_map, spawnsOfAll]
  refine List.countP_congr fun p _ => ?_
  cases owner <;> cases ho : ownerAll? points ns p <;> simp [ho]

theorem spawnsOfAll_append (owner : Option Place) (qs : List Place) :
    spawnsOfAll points ns owner (ps ++ qs) =
      spawnsOfAll points ns owner ps + spawnsOfAll points ns owner qs := by
  rw [spawnsOfAll, List.countP_append, spawnsOfAll, spawnsOfAll]

theorem spawnsOfAll_none_cons :
    spawnsOfAll points (n :: ns) none (addressesAll (n :: ns)) =
      n.spawnsOf points none n.addresses + spawnsOfAll points ns none (addressesAll ns) := by
  rw [addressesAll, spawnsOfAll_append]
  exact congrArg₂ _ (spawnsOfAll_first n ns _ none) (spawnsOfAll_later n ns _ none)

theorem spawnsOfAll_first_of_later (p : Place) :
    spawnsOfAll points (n :: ns) (some p.later) (as.map Place.first) = 0 := by
  simp [spawnsOfAll]

theorem spawnsOfAll_later_of_first (a : Address) :
    spawnsOfAll points (n :: ns) (some (.first a)) (ps.map Place.later) = 0 := by
  simp [spawnsOfAll]

end

/-! ## The scopes of a tree -/

/-- The scope of the node at an address, with all the spawns that it owns. -/
def scopeAt? (points : EntryPoints) (n : Node) (a : Address) : Option Scope :=
  (n.at? a).bind fun d => (d.opens points).map fun kind =>
    ⟨kind, d.span, n.spawnsOf points (some a) n.addresses⟩

def scopeAtAll? (points : EntryPoints) (ns : List Node) (p : Place) : Option Scope :=
  (atAll? ns p).bind fun d => (d.opens points).map fun kind =>
    ⟨kind, d.span, spawnsOfAll points ns (some p) (addressesAll ns)⟩

theorem scopeAt?_nil (n : Node) : n.scopeAt? points [] = (n.opens points).map fun kind =>
    ⟨kind, n.span, n.spawnsOf points (some []) n.addresses⟩ := by
  rw [scopeAt?, at?_nil, Option.bind_some]

theorem scopeAt?_below (n : Node) (p : Place) :
    n.scopeAt? points p.below = scopeAtAll? points n.children p := by
  rw [scopeAt?, scopeAtAll?, at?_below, addresses_eq, spawnsOf_below]

theorem scopeAtAll?_first (n : Node) (ns : List Node) (a : Address) :
    scopeAtAll? points (n :: ns) (.first a) = n.scopeAt? points a := by
  rw [scopeAtAll?, scopeAt?, atAll?_first, addressesAll, spawnsOfAll_append,
    spawnsOfAll_later_of_first, Nat.add_zero]
  exact congrArg _ (funext fun d => by rw [← spawnsOfAll_first n ns n.addresses (some a)]; rfl)

theorem scopeAtAll?_later (n : Node) (ns : List Node) (p : Place) :
    scopeAtAll? points (n :: ns) p.later = scopeAtAll? points ns p := by
  rw [scopeAtAll?, scopeAtAll?, atAll?_later, addressesAll, spawnsOfAll_append,
    spawnsOfAll_first_of_later, Nat.zero_add]
  exact congrArg _ (funext fun d => by rw [← spawnsOfAll_later n ns _ (some p)]; rfl)

end Node

end ConcurrencyLint
