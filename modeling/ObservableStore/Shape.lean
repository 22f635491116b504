import ObservableStore.Prelude

/-!
# Type shapes

A type reference as written in source, resolved: the namespace and simple name it stands for and its
type arguments. Only what is lexically present counts, so a bare `Grid` has no arguments even where
`Grid` is a generic alias.
-/

namespace ObservableStore

/-- A possibly generic type reference. -/
inductive Shape where
  | mk (home : Namespace) (name : String) (arguments : List Shape)
deriving Repr, Inhabited

namespace Shape

/-- The namespace that holds the type. -/
def home : Shape → Namespace
  | .mk ns _ _ => ns

/-- The type's simple name. -/
def name : Shape → String
  | .mk _ n _ => n

/-- The type arguments, in order. -/
def arguments : Shape → List Shape
  | .mk _ _ args => args

/-- The text between angle brackets, and the brackets, if there are arguments. -/
def bracketed (args : List String) : String :=
  if args.isEmpty then "" else "<" ++ ", ".intercalate args ++ ">"

/-- The type by simple names only: `Name` or `Name<A, B>`. -/
def render : Shape → String
  | .mk _ name args => name ++ bracketed (args.map render)

/-- How deep type arguments are nested: 0 for `i32`, 2 for `Vec<Vec<i32>>`. -/
def depth : Shape → Nat
  | .mk _ _ args => ((args.map depth).map (· + 1)).foldl max 0

/-- Whether the type can be named everywhere without an import. -/
def isPrelude (s : Shape) : Bool :=
  Prelude.covers s.home s.name

/-- The type and every type argument at any depth, outermost first. -/
def walk : Shape → List Shape
  | .mk ns name args => .mk ns name args :: (args.map walk).flatten

/-- The path to the type, its arguments left out. -/
def qualified (s : Shape) : String :=
  s.home.qualify s.name

/-- The shape as a JSON value; an empty list of arguments is left out. -/
def toJson : Shape → Json
  | .mk ns name args =>
    .object ([("qualified_namespace", ns.toJson), ("simple_name", .text name)] ++
      (if args.isEmpty then [] else [("type_arguments", .array (args.map toJson))]))

theorem mem_walk_self (s : Shape) : s ∈ s.walk := by
  cases s with
  | mk ns name args => simp [walk]

theorem walk_argument {s : Shape} {a t : Shape} (ha : a ∈ s.arguments) (ht : t ∈ a.walk) :
    t ∈ s.walk := by
  cases s with
  | mk ns name args =>
    simp only [arguments] at ha
    simp only [walk, List.mem_cons, List.mem_flatten, List.mem_map]
    exact Or.inr ⟨a.walk, ⟨a, ha, rfl⟩, ht⟩

end Shape

end ObservableStore
