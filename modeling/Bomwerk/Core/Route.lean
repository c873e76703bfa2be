import Bomwerk.Core.Path

/-!
# The walk along a path

The names of a path are a walk through directories, and the names that
`lexically_normal` keeps are the shortest walk to the same place: first up, as
far as the path climbs, then only down.
-/

namespace Bomwerk.Core

/-- One step on the way from the root of a tree to one of its directories. -/
def enterName (directory : List String) (name : String) : List String :=
  if name = "." then directory
  else if name = ".." then directory.dropLast
  else directory ++ [name]

namespace FsPath

/-- Where the names of a path lead from a directory. -/
def walk (start names : List String) : List String :=
  names.foldl enterName start

theorem walk_append (start front back : List String) :
    walk start (front ++ back) = walk (walk start front) back :=
  List.foldl_append

theorem walk_replicate_dotDot (start : List String) (climbs : ℕ) :
    walk start (List.replicate climbs "..") =
      start.take (start.length - climbs) := by
  induction climbs with
  | zero => simp [walk]
  | succ climbs ih =>
    rw [List.replicate_succ', walk_append, ih]
    have hlength : (start.take (start.length - climbs)).length =
        start.length - climbs := by
      rw [List.length_take]
      omega
    change (start.take (start.length - climbs)).dropLast = _
    rw [List.dropLast_eq_take, hlength, List.take_take]
    congr 1
    omega

theorem walk_proper (start : List String) {names : List String}
    (hdot : "." ∉ names) (hup : ".." ∉ names) :
    walk start names = start ++ names := by
  induction names generalizing start with
  | nil => simp [walk]
  | cons name names ih =>
    rw [List.mem_cons, not_or] at hdot hup
    have hstep : enterName start name = start ++ [name] := by
      rw [enterName, if_neg (Ne.symm hdot.1), if_neg (Ne.symm hup.1)]
    change walk (enterName start name) names = _
    rw [hstep, ih _ hdot.2 hup.2, List.append_assoc, List.singleton_append]

theorem prefix_walk {names : List String} (hup : ".." ∉ names)
    (start : List String) : start <+: walk start names := by
  induction names generalizing start with
  | nil => exact List.prefix_refl start
  | cons name names ih =>
    rw [List.mem_cons, not_or] at hup
    refine List.IsPrefix.trans ?_ (ih hup.2 (enterName start name))
    rw [enterName, if_neg (Ne.symm hup.1)]
    split_ifs
    · exact List.prefix_refl start
    · exact List.prefix_append start [name]

/-! ## The shortest walk -/

/-- A walk in its shortest form: so many directories up, then only down. -/
@[ext] structure Route where
  climbs : ℕ
  below : List String
  noDot : "." ∉ below
  noDotDot : ".." ∉ below

namespace Route

def names (route : Route) : List String :=
  List.replicate route.climbs ".." ++ route.below

def destination (route : Route) (start : List String) : List String :=
  start.take (start.length - route.climbs) ++ route.below

theorem walk_names (route : Route) (start : List String) :
    walk start route.names = route.destination start := by
  rw [names, walk_append, walk_replicate_dotDot,
    walk_proper _ route.noDot route.noDotDot, destination]

theorem mem_names_dotDot_iff (route : Route) :
    ".." ∈ route.names ↔ route.climbs ≠ 0 := by
  simp [names, route.noDotDot, List.mem_replicate]

theorem dot_notMem_names (route : Route) : "." ∉ route.names := by
  simp [names, route.noDot, List.mem_replicate]

theorem length_destination (route : Route) (start : List String) :
    (route.destination start).length =
      start.length - route.climbs + route.below.length := by
  rw [destination, List.length_append, List.length_take]
  omega

/-- The names a path with this route is written with. -/
def written (route : Route) (absolute empty : Bool) : List String :=
  if route.names = [] then if absolute || empty then [] else ["."]
  else route.names

/-- At the root there is no directory left to climb to. -/
def FitsRoot (route : Route) (absolute : Bool) : Prop :=
  absolute = true → route.climbs = 0

/-- One name of the path: the names kept stay a route, and it ends where the
name leads. -/
theorem exists_step {absolute : Bool} {route : Route}
    (hroute : route.FitsRoot absolute) (mark : Bool) (name : String) :
    ∃ next : Route, next.FitsRoot absolute ∧
      (normalizeStep absolute (route.names.reverse, mark) name).1 =
        next.names.reverse ∧
      ∀ start, (absolute = true → start = []) →
        enterName (route.destination start) name = next.destination start := by
  by_cases hdot : name = "."
  · exact ⟨route, hroute, by rw [normalizeStep, if_pos hdot],
      fun start _ => by rw [enterName, if_pos hdot]⟩
  by_cases hup : name = ".."
  · subst hup
    rcases List.eq_nil_or_concat route.below with hbelow | ⟨front, last, hbelow⟩
    · cases absolute with
      | true =>
        have hclimbs := hroute rfl
        refine ⟨route, hroute, ?_, fun start hstart => ?_⟩
        · simp [normalizeStep, names, hclimbs, hbelow]
        · simp [enterName, destination, hstart rfl, hbelow]
      | false =>
        -- The walk leaves one more directory: its names are all climbs.
        refine ⟨⟨route.climbs + 1, [], by simp, by simp⟩, by simp [FitsRoot],
          ?_, fun start _ => ?_⟩
        · cases hclimbs : route.climbs with
          | zero => simp [normalizeStep, names, hclimbs, hbelow]
          | succ climbs =>
            rw [names, hbelow, hclimbs, List.append_nil,
              List.reverse_replicate, names, List.append_nil,
              List.reverse_replicate]
            simp [normalizeStep, List.replicate_succ]
        · rw [← walk_names, ← walk_names]
          simp only [names, hbelow, List.append_nil, List.replicate_succ',
            walk_append]
          rfl
    · rw [List.concat_eq_append] at hbelow
      have hdots := route.noDot
      have hups := route.noDotDot
      rw [hbelow, List.mem_append, not_or] at hdots hups
      have hlast : last ≠ ".." := fun h => hups.2 (by simp [h])
      refine ⟨⟨route.climbs, front, hdots.1, hups.1⟩, hroute, ?_,
        fun start _ => ?_⟩
      · simp [normalizeStep, names, hbelow, hlast]
      · simp only [enterName, destination, hbelow, if_pos]
        rw [if_neg hdot, ← List.append_assoc, List.dropLast_concat]
  · refine ⟨⟨route.climbs, route.below ++ [name], ?_, ?_⟩, hroute, ?_,
      fun start _ => ?_⟩
    · simpa [route.noDot] using Ne.symm hdot
    · simpa [route.noDotDot] using Ne.symm hup
    · simp [normalizeStep, names, hdot, hup]
    · simp [enterName, destination, hdot, hup]

theorem exists_foldl {absolute : Bool} (path : List String) {route : Route}
    (hroute : route.FitsRoot absolute) (mark : Bool) :
    ∃ next : Route, next.FitsRoot absolute ∧
      (path.foldl (normalizeStep absolute) (route.names.reverse, mark)).1 =
        next.names.reverse ∧
      ∀ start, (absolute = true → start = []) →
        walk (route.destination start) path = next.destination start := by
  induction path generalizing route mark with
  | nil => exact ⟨route, hroute, rfl, fun start _ => rfl⟩
  | cons name path ih =>
    obtain ⟨middle, hmiddle, hkept, hstep⟩ := exists_step hroute mark name
    obtain ⟨next, hnext, hfinal, hrun⟩ := ih hmiddle
      (normalizeStep absolute (route.names.reverse, mark) name).2
    refine ⟨next, hnext, ?_, fun start hstart => ?_⟩
    · rw [← hfinal, ← hkept, List.foldl_cons]
    · rw [← hrun start hstart, ← hstep start hstart]
      rfl

/-- The names kept of a path are a route to where the path leads. -/
theorem exists_normalizeNames (absolute : Bool) (path : List String) :
    ∃ route : Route, route.FitsRoot absolute ∧
      (normalizeNames absolute path).1 = route.names.reverse ∧
      ∀ start, (absolute = true → start = []) →
        walk start path = route.destination start := by
  obtain ⟨route, hfits, hkept, hwalk⟩ := @exists_foldl absolute path
    ⟨0, [], by simp, by simp⟩ (fun _ => rfl) false
  refine ⟨route, hfits, hkept, fun start hstart => ?_⟩
  rw [← hwalk start hstart]
  simp [destination]

end Route
end FsPath
end Bomwerk.Core
