import Roster.Shell.Error

/-!
# The manual

The pages of the manual: an overview and four topics. A topic has several names, which may be
written in letters of any case and with `-` for `_`. No letter outside ASCII has a small letter
that occurs in a name, so only the letters of ASCII are made small.
-/

set_option autoImplicit false

namespace Roster.Shell

/-- The topics of the manual. -/
inductive Topic where
  | syntaxRules | filters | aggregates | errors
deriving DecidableEq

namespace Topic

/-- The topic of a name. -/
def ofName? (name : String) : Option Topic :=
  let plain := String.ofList (name.toList.map fun c => if c = '-' then '_' else c.toLower)
  if plain ∈ ["syntax", "statements"] then some syntaxRules
  else if plain ∈ ["filters", "filter", "operators", "ops"] then some filters
  else if plain ∈ ["aggregates", "aggregate", "sort"] then some aggregates
  else if plain ∈ ["errors", "error"] then some errors
  else none

end Topic

namespace Manual

/-- The list of topics. -/
def overview : String :=
  String.join [
    "STAFFQL DOCUMENTATION\n",
    "\n",
    "staffql is a small statement language for querying a table of employee\n",
    "records. A script loads a CSV file, accumulates filters, aggregates and a sort\n",
    "order, and prints the result.\n",
    "\n",
    "DOCUMENTATION TOPICS\n",
    "\n",
    "  syntax            Statements, literals, comments\n",
    "  filters           Comparison operators, ranges, and/or\n",
    "  aggregates        count / sum / average, and sorting\n",
    "  errors            What can go wrong and when\n",
    "\n",
    "QUICK REFERENCE\n",
    "\n",
    "  load \"file.csv\";                               Load a table\n",
    "  filter column \"age\" > 25;                      Keep matching rows\n",
    "  filter column \"age\" between 30 and 40;         Inclusive range\n",
    "  aggregate average column \"salary\";             Adds average_salary\n",
    "  sort column \"salary\" desc;                     Order rows\n",
    "  print;                                         Run and show the query\n",
    "\n",
    "Run 'staffql doc <topic>' for detailed documentation.\n"]

/-- The topic of statements, literals and comments. -/
def syntaxText : String :=
  String.join [
    "SYNTAX - Statements\n",
    "\n",
    "Every statement ends with ';'. Keywords are lowercase.\n",
    "\n",
    "  load \"<path>\";\n",
    "  filter column \"<name>\" <op> <value> [(and|or) [filter] column ... ];\n",
    "  aggregate (count|sum|average) column \"<name>\";\n",
    "  sort column \"<name>\" (asc|desc);\n",
    "  print;\n",
    "\n",
    "LITERALS\n",
    "  \"text\"      Double-quoted; no escape sequences\n",
    "  42, 2500.5  Unsigned integer or decimal numbers\n",
    "\n",
    "COMMENTS\n",
    "  // to the end of the line\n",
    "\n",
    "EXECUTION\n",
    "  Statements run in order. filter, aggregate and sort add to the session's\n",
    "  query; print runs it without clearing anything, so a later print sees\n",
    "  everything accumulated before it.\n"]

/-- The topic of comparisons and connectives. -/
def filtersText : String :=
  String.join [
    "FILTERS - Comparisons and Connectives\n",
    "\n",
    "COMPARISON OPERATORS\n",
    "  >  <  >=  <=  ==  !=\n",
    "    Compare a column with a number or a string. The value must match the\n",
    "    column's type: numeric columns take numbers, text columns take strings.\n",
    "\n",
    "  between MIN and MAX\n",
    "    Inclusive numeric range: keeps MIN <= value <= MAX.\n",
    "\n",
    "  Examples:\n",
    "    filter column \"age\" >= 25;\n",
    "    filter column \"department\" == \"Legal\";\n",
    "    filter column \"salary\" between 2500 and 4000;\n",
    "\n",
    "EMPTY FIELDS\n",
    "  An empty CSV field never matches, except with !=.\n",
    "\n",
    "CONNECTIVES\n",
    "  and binds tighter than or; both group left to right.\n",
    "\n",
    "    a and b or c      is  (a and b) or c\n",
    "\n",
    "  By default every comparison in a filter must hold, whichever connective\n",
    "  joins them: or behaves like and. Run with --boolean-filters to evaluate\n",
    "  and/or as written.\n"]

/-- The topic of aggregates and sorting. -/
def aggregatesText : String :=
  String.join [
    "AGGREGATES AND SORTING\n",
    "\n",
    "AGGREGATES\n",
    "  aggregate count column \"id\";        count_id: rows left after filtering\n",
    "  aggregate sum column \"salary\";      sum_salary: total, 0 when no rows\n",
    "  aggregate average column \"salary\";  average_salary: mean, NaN when no rows\n",
    "\n",
    "  Aggregates are computed over filtered rows; sorting does not affect them.\n",
    "  sum and average need a numeric column and skip empty fields. Requesting\n",
    "  the same aggregate twice lists it twice; the JSON output keeps the last.\n",
    "\n",
    "SORTING\n",
    "  sort column \"salary\" desc;\n",
    "\n",
    "  Only the latest sort applies. Sorting is stable and puts empty fields last.\n"]

/-- The topic of faults. -/
def errorsText : String :=
  String.join [
    "ERRORS\n",
    "\n",
    "LexError      A character or word the language does not know\n",
    "ParseError    A statement that does not follow the grammar\n",
    "StateError    filter, aggregate, sort or print before any load\n",
    "ColumnError   A column the loaded table does not have (reported at print)\n",
    "TypeError     between without a range, a range without between, a string\n",
    "              against a numeric column, or sum/average of a text column\n",
    "EmptyAggregateError\n",
    "              average over no values, with --strict-average\n",
    "\n",
    "A failed print leaves the session untouched: fix the script and print again\n",
    "without reloading.\n"]

/-- The page of a topic. -/
def page : Topic → String
  | .syntaxRules => syntaxText
  | .filters => filtersText
  | .aggregates => aggregatesText
  | .errors => errorsText

/-- The page of the topic of a name. -/
def lookUp (name : String) : Except CommandError String :=
  match Topic.ofName? name with
  | some topic => .ok (page topic)
  | none => .error (.unknownTopic name)

end Manual

end Roster.Shell
