import ReadThrough.Newsroom
import ReadThrough.Sql.Mapping
/-!
# The newsroom's tables in a database

Articles, categories and tags have tables. Of the relations, the category and the tags of an article
and the parent of a tag can be followed.
-/

namespace ReadThrough.Newsroom

open Sql

/-- The table of articles. -/
def articleTable : Mapping Item where
  entity := articles
  table := "articles"
  relation
    | "category" => some "SELECT c.name FROM categories c WHERE c.id = t.category_id"
    | "tags" => some "SELECT array_agg(x.code) FROM tags x WHERE x.article_id = t.id"
    | _ => none

/-- The table of categories. -/
def categoryTable : Mapping Item where
  entity := categories
  table := "categories"

/-- The table of tags. -/
def tagTable : Mapping Item where
  entity := tags
  table := "tags"
  keyKind := .text
  relation
    | "parent" => some "SELECT p.label FROM tags p WHERE p.code = t.parent_code"
    | _ => none

/-- The table of a kind of rows. -/
def table? (kind : String) : Option (Mapping Item) :=
  [articleTable, categoryTable, tagTable].find? (·.entity.kind = kind)

end ReadThrough.Newsroom
