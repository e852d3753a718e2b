import Subplans.Schema.Description

/-!
A small database of movies, for which the command line runs by default.
-/

namespace Subplans.SchemaDescription

-- An indexed integer column that may not be null.
def identifier : ColumnDescription where
  name := "id"
  dataType := "integer"
  indexed := true
  nullable := false

def plain (name dataType : String) : ColumnDescription where
  name
  dataType

def movieColumn : ColumnDescription where
  name := "movie_id"
  dataType := "integer"
  indexed := true

def lookupTable (name : String) (cardinality : Float) (column : String) : TableDescription where
  name
  cardinality
  isLeaf := true
  columns := [identifier, plain column "text"]
  keyColumns := ["id"]

def reference (source column target : String) : KeyDescription where
  name := source ++ "_" ++ column ++ "_fkey"
  source
  sourceColumns := [column]
  target
  targetColumns := ["id"]

-- Movies, the companies, information and keywords that belong to them, and their kinds.
def movies : SchemaDescription where
  name := "imdb"
  tables := [
    { name := "title"
      cardinality := 2528312
      columns := [identifier, plain "title" "text", plain "kind_id" "integer",
        { plain "production_year" "integer" with least := "1880", greatest := "2019" },
        plain "release_date" "date"]
      keyColumns := ["id"]
      indexes := ["title_pkey"] },
    { name := "movie_companies"
      cardinality := 2609129
      columns := [identifier, movieColumn, plain "company_id" "integer",
        plain "company_type_id" "integer", plain "note" "text"]
      keyColumns := ["id"]
      indexes := ["movie_companies_pkey", "movie_id_movie_companies"] },
    { name := "movie_info"
      cardinality := 14835720
      columns := [identifier, movieColumn, plain "info_type_id" "integer", plain "info" "text",
        plain "note" "text"]
      keyColumns := ["id"]
      indexes := ["movie_info_pkey", "movie_id_movie_info"] },
    { name := "movie_keyword"
      cardinality := 4523930
      columns := [identifier, movieColumn, plain "keyword_id" "integer"]
      keyColumns := ["id"] },
    lookupTable "keyword" 134170 "keyword",
    lookupTable "company_name" 234997 "name",
    lookupTable "company_type" 4 "kind",
    lookupTable "kind_type" 7 "kind",
    lookupTable "info_type" 113 "info"]
  keys := [
    reference "movie_companies" "movie_id" "title",
    reference "movie_companies" "company_id" "company_name",
    reference "movie_companies" "company_type_id" "company_type",
    reference "movie_info" "movie_id" "title",
    reference "movie_info" "info_type_id" "info_type",
    reference "movie_keyword" "movie_id" "title",
    reference "movie_keyword" "keyword_id" "keyword",
    reference "title" "kind_id" "kind_type"]

end Subplans.SchemaDescription
