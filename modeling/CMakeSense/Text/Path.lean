import CMakeSense.Text.Basic

/-! File paths as texts. Paths are slash-separated; these operations look at the spelling alone
and never at a file tree. Normalisation makes no path longer (`length_clean_le`), so going up from
directory to directory comes to an end (`height_dir_lt`). -/

namespace CMakeSense.Path

def isAbsolute (path : Text) : Bool := path.head? == some Ascii.slash

/-- One step of normalisation, on the components kept so far, the last of them first: a blank or
`.` adds nothing, and `..` takes back the last component that is no `..` itself. At the root
there is nothing to take back. -/
def push (rooted : Bool) (kept : List Text) (component : Text) : List Text :=
  if component = [] || component = utf8 "." then kept
  else if component = utf8 ".." then
    match kept with
    | [] => if rooted then [] else [component]
    | last :: rest => if last = utf8 ".." then component :: kept else rest
  else component :: kept

/-- The components that remain of a path once `.` and `..` are worked off. -/
def components (path : Text) : List Text :=
  ((Text.splitOn Ascii.slash path).foldl (push (isAbsolute path)) []).reverse

/-- The shortest spelling of a path. The empty path is the current directory. -/
def clean (path : Text) : Text :=
  let body := Text.join [Ascii.slash] (components path)
  if isAbsolute path then Ascii.slash :: body
  else if body = [] then utf8 "." else body

/-- `name` as seen from `base`. -/
def join (base name : Text) : Text :=
  if base = [] then if name = [] then [] else clean name
  else clean (base ++ Ascii.slash :: name)

/-- The directory part of a path: all up to its last slash. -/
def dir (path : Text) : Text :=
  match Text.cutLast? Ascii.slash path with
  | some (before, _) => clean (before ++ [Ascii.slash])
  | none => utf8 "."

/-- The last component of a path. -/
def base (path : Text) : Text :=
  if path = [] then utf8 "."
  else
    let trimmed := (path.reverse.dropWhile (· = Ascii.slash)).reverse
    if trimmed = [] then [Ascii.slash]
    else match Text.cutLast? Ascii.slash trimmed with
      | some (_, after) => after
      | none => trimmed

/-- The last component's part from its last dot on, or nothing when it has none. -/
def extension (path : Text) : Text :=
  let name := (path.reverse.takeWhile (· ≠ Ascii.slash)).reverse
  match Text.cutLast? Ascii.dot name with
  | some (_, after) => Ascii.dot :: after
  | none => []

/-- The absolute spelling of a path, seen from the directory `working`. -/
def absolute (working path : Text) : Text :=
  if isAbsolute path then clean path else join working path

variable {dir path : Text}

theorem isAbsolute_append (h : dir ≠ []) (t : Text) : isAbsolute (dir ++ t) = isAbsolute dir := by
  obtain ⟨c, rest, rfl⟩ := List.exists_cons_of_ne_nil h
  rfl

theorem components_append_slash (hdir : dir ≠ []) :
    components (dir ++ [Ascii.slash]) = components dir := by
  rw [components, isAbsolute_append hdir, Text.splitOn_append, List.foldl_append, components]
  rfl

/-! ### Going up

The pieces of a path weigh as much as the path, and normalisation only takes weight away. -/

/-- The number of bytes of the pieces, each with a slash behind it. -/
def weight (pieces : List Text) : Nat := pieces.flatten.length + pieces.length

@[simp] theorem weight_nil : weight [] = 0 := rfl

theorem weight_cons (piece : Text) (pieces : List Text) :
    weight (piece :: pieces) = piece.length + 1 + weight pieces := by
  simp only [weight, List.flatten_cons, List.length_append, List.length_cons]
  omega

theorem weight_reverse (pieces : List Text) : weight pieces.reverse = weight pieces := by
  rw [weight, List.length_flatten, List.map_reverse, List.sum_reverse, ← List.length_flatten,
    List.length_reverse, weight]

theorem weight_push_le (rooted : Bool) (kept : List Text) (component : Text) :
    weight (push rooted kept component) ≤ component.length + 1 + weight kept := by
  have added : weight (component :: kept) ≤ component.length + 1 + weight kept :=
    Nat.le_of_eq (weight_cons ..)
  unfold push
  split
  · exact Nat.le_add_left ..
  split
  · split
    · split
      · exact Nat.zero_le _
      · exact added
    · split
      · exact added
      · rw [weight_cons]
        omega
  · exact added

theorem weight_foldl_push_le (rooted : Bool) (kept pieces : List Text) :
    weight (pieces.foldl (push rooted) kept) ≤ weight pieces + weight kept := by
  induction pieces generalizing kept with
  | nil => exact Nat.le_add_left ..
  | cons piece pieces ih =>
    have step := weight_push_le rooted kept piece
    have rest := ih (push rooted kept piece)
    rw [List.foldl_cons, weight_cons]
    omega

theorem weight_splitOn (t : Text) : weight (Text.splitOn Ascii.slash t) = t.length + 1 := by
  induction t with
  | nil => rfl
  | cons b t ih =>
    rw [Text.splitOn, List.length_cons]
    split
    · rw [weight_cons, ih, List.length_nil]
      omega
    · cases pieces : Text.splitOn Ascii.slash t with
      | nil => exact absurd pieces (Text.splitOn_ne_nil Ascii.slash t)
      | cons piece rest =>
        rw [pieces, weight_cons] at ih
        rw [weight_cons, List.length_cons]
        omega

theorem length_join (c : UInt8) {pieces : List Text} (given : pieces ≠ []) :
    (Text.join [c] pieces).length + 1 = weight pieces := by
  induction pieces with
  | nil => exact absurd rfl given
  | cons piece pieces ih =>
    cases pieces with
    | nil => simp [Text.join, weight]
    | cons next pieces =>
      rw [weight_cons, ← ih (List.cons_ne_nil next pieces), Text.join]
      · simp only [List.length_append, List.length_cons, List.length_nil]
        omega
      · exact List.cons_ne_nil next pieces

/-- The empty piece before the first slash of a path from the root weighs nothing any more. -/
theorem weight_components_le (path : Text) :
    weight (components path) + (if isAbsolute path then 1 else 0) ≤ path.length + 1 := by
  rw [components, weight_reverse]
  cases path with
  | nil => decide
  | cons c rest =>
    by_cases root : c = Ascii.slash
    · have absolute : isAbsolute (c :: rest) = true := by rw [root]; rfl
      have bound := weight_foldl_push_le true [] (Text.splitOn Ascii.slash rest)
      rw [weight_splitOn, weight_nil] at bound
      rw [absolute, if_pos rfl, Text.splitOn, if_pos root, List.length_cons]
      exact Nat.succ_le_succ bound
    · have relative : isAbsolute (c :: rest) = false := by simpa [isAbsolute] using root
      have bound := weight_foldl_push_le false [] (Text.splitOn Ascii.slash (c :: rest))
      rw [weight_splitOn, weight_nil] at bound
      rwa [relative]

/-- The shortest spelling is not longer. -/
theorem length_clean_le (given : path ≠ []) : (clean path).length ≤ path.length := by
  have bound := weight_components_le path
  have positive := List.length_pos_iff.mpr given
  unfold clean
  by_cases top : components path = []
  · rw [top]
    split
    · exact positive
    · exact positive
  · have body := length_join Ascii.slash top
    split
    · next absolute =>
      rw [absolute, if_pos rfl] at bound
      rw [List.length_cons]
      omega
    · dsimp only
      split
      · exact positive
      · omega

/-- How long a path is, other than the current directory, which leads no further up. -/
def height (path : Text) : Nat := if path = utf8 "." then 0 else path.length + 1

/-- The directory part of a path lies further up, unless it is the path itself. -/
theorem height_dir_lt (moves : Path.dir path ≠ path) : height (Path.dir path) < height path := by
  have le (p : Text) : height p ≤ p.length + 1 := by
    rw [height]
    split
    · exact Nat.zero_le _
    · exact Nat.le_refl _
  unfold Path.dir at moves ⊢
  cases cut : Text.cutLast? Ascii.slash path with
  | none =>
    rw [cut] at moves
    rw [height, if_pos rfl, height, if_neg (Ne.symm moves)]
    exact Nat.succ_pos _
  | some parts =>
    obtain ⟨before, after⟩ := parts
    have parts := Text.eq_append_of_cutLast? cut
    have long : height path = path.length + 1 := by
      refine if_neg fun current => ?_
      have slash : Ascii.slash ∈ utf8 "." := by
        rw [← current, parts]
        simp
      exact absurd slash (by decide)
    rw [cut] at moves
    rw [long]
    refine Nat.lt_of_le_of_lt (le _) (Nat.succ_lt_succ ?_)
    by_cases root : before = []
    · -- The directory of a name in the root is the root, which is its own directory.
      rw [root] at parts moves ⊢
      cases after with
      | nil => exact absurd parts.symm moves
      | cons c name =>
        rw [parts]
        exact Nat.succ_lt_succ (Nat.succ_pos _)
    · have shorter := length_clean_le root
      have same : clean (before ++ [Ascii.slash]) = clean before := by
        rw [clean, clean, components_append_slash root, isAbsolute_append root]
      have length := congrArg List.length parts
      rw [List.length_append, List.length_cons] at length
      simp only [same]
      omega

end CMakeSense.Path
