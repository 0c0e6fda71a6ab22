import ReadThrough.Entity
/-!
# A newsroom

Entities to try things out on. Articles belong to categories and carry tags; a teaser is a shorter
kind of row that lives in the same segment as the articles; drafts have keys of either kind. Articles,
categories and tags also have tables in a database.
-/

namespace ReadThrough.Newsroom

/-- An article. -/
structure Article where
  id : Int64
  title : String
  category : Int64
  views : Int64
  published : Bool
  deriving DecidableEq, Repr, Inhabited

/-- A category, possibly within another. -/
structure Category where
  id : Int64
  name : String
  parent : Option Int64 := none
  deriving DecidableEq, Repr, Inhabited

/-- A tag. -/
structure Tag where
  code : String
  label : Option String := none
  weight : Int64 := 0
  deriving DecidableEq, Repr, Inhabited

/-- A draft; early ones were numbered, later ones are named. -/
structure Draft where
  id : Key
  rank : Int64 := 0
  deriving DecidableEq, Repr, Inhabited

/-- A row of any of the tables. -/
inductive Item where
  | article (a : Article)
  | teaser (id : Int64)
  | category (c : Category)
  | tag (t : Tag)
  | draft (d : Draft)
  deriving DecidableEq, Repr, Inhabited

namespace Item

/-- The key of a row. -/
def key : Item → Key
  | .article a => .int a.id
  | .teaser id => .int id
  | .category c => .int c.id
  | .tag t => .text t.code
  | .draft d => d.id

/-- What a row holds in a column. -/
def value : Item → String → Option Value
  | .article a, "id" => some (.int a.id)
  | .article a, "title" => some (.text a.title)
  | .article a, "category_id" => some (.int a.category)
  | .article a, "views" => some (.int a.views)
  | .article a, "published" => some (.bool a.published)
  | .teaser id, "id" => some (.int id)
  | .category c, "id" => some (.int c.id)
  | .category c, "name" => some (.text c.name)
  | .category c, "parent" => c.parent.map .int
  | .tag t, "code" => some (.text t.code)
  | .tag t, "label" => t.label.map .text
  | .tag t, "weight" => some (.int t.weight)
  | .draft d, "id" => some d.id.toValue
  | .draft d, "rank" => some (.int d.rank)
  | _, _ => none

end Item

/-- Articles, in a category and related to it, to tags and to an author. -/
def articles : Entity Item where
  kind := "Article"
  segment := "Article"
  columns := ["title", "category_id", "views", "published"]
  relations := ["category", "tags", "author"]
  categoryColumn := some "category_id"
  key := Item.key
  value := Item.value

/-- Teasers, which share a segment with the articles. -/
def teasers : Entity Item where
  kind := "ArticleView"
  segment := "Article"
  key := Item.key
  value := Item.value

/-- Categories. -/
def categories : Entity Item where
  kind := "Category"
  segment := "Category"
  columns := ["name", "parent"]
  relations := ["parent"]
  key := Item.key
  value := Item.value

/-- Tags, found by their code. The column `ghost` is declared but no tag has a value in it. -/
def tags : Entity Item where
  kind := "Tag"
  segment := "Tag"
  keyColumn := "code"
  columns := ["label", "weight", "ghost"]
  relations := ["parent", "owner"]
  categoryColumn := some "weight"
  key := Item.key
  value := Item.value

/-- Drafts. -/
def drafts : Entity Item where
  kind := "Mixed"
  segment := "Mixed"
  columns := ["rank"]
  key := Item.key
  value := Item.value

/-- All entities. -/
def entities : List (Entity Item) := [articles, teasers, categories, tags, drafts]

/-- The entity of a kind of rows. -/
def entity? (kind : String) : Option (Entity Item) := entities.find? (·.kind = kind)

/-- The article that stands under a number in a generated table. -/
def article (n : Nat) : Item :=
  .article
    { id := .ofNat n
      title := s!"Article {n}"
      category := if n % 2 = 0 then 2 else 1
      views := .ofNat (n * 10 % 7)
      published := n % 3 = 0 }

/-- A generated table of articles. -/
def articlesUpTo (n : Nat) : List Item := (List.range n).map fun i => article (i + 1)

end ReadThrough.Newsroom
