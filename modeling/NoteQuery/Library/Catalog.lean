/-
The builtin library.

Every function and every method that there is without further registration, in the order in
which they are registered.
-/
import NoteQuery.Library.Entry

namespace NoteQuery.Library

/-- The builtin functions. -/
def builtinFunctions : List FunctionEntry := [
  { name := "escapeHTML"
    description := "Escapes &, <, >, quotes and apostrophes for safe markup output"
    category := .string
    parameters := [⟨"value", "any", "Value to escape (display form)", true, false⟩]
    returnType := "string"
    examples := ["escapeHTML(title)"]
    op := .escapeMarkup },
  { name := "regexp"
    description := "Builds a pattern from a body string and optional flags"
    category := .string
    parameters := [⟨"body", "string", "Regular expression body", true, false⟩,
      ⟨"flags", "string", "Flags such as i, m, s, g", false, false⟩]
    returnType := "regexp"
    examples := ["regexp(\"^draft\", \"i\").matches(status)"]
    op := .makePattern },
  { name := "date"
    description := "Converts an ISO 8601 string, epoch milliseconds or date to a timestamp"
    category := .date
    parameters := [⟨"value", "string|number|date", "Value to convert", true, false⟩]
    returnType := "date"
    examples := ["date(\"2024-01-31\")", "date(due) < now()"]
    op := .toDate },
  { name := "duration"
    description := "Parses a duration string such as '1M 2d' or '-3h'"
    category := .date
    parameters := [⟨"value", "string", "Duration text", true, false⟩]
    returnType := "duration"
    examples := ["date(due) + duration(\"1w\")"]
    op := .toDuration },
  { name := "now"
    description := "Returns the current date and time"
    category := .date
    parameters := []
    returnType := "date"
    examples := ["file.mtime > now() - \"7d\""]
    op := .now },
  { name := "today"
    description := "Returns the start of the current day"
    category := .date
    parameters := []
    returnType := "date"
    examples := ["date(due) < today()"]
    op := .today },
  { name := "number"
    description := "Converts a value to a number (dates to epoch milliseconds, " ++
      "durations to milliseconds)"
    category := .math
    parameters := [⟨"value", "any", "Value to convert", true, false⟩]
    returnType := "number"
    examples := ["number(price) * 2"]
    op := .toNumber },
  { name := "max"
    description := "Returns the largest number of a list or of the arguments"
    category := .math
    parameters := [⟨"values", "number|list", "Numbers to compare", true, true⟩]
    returnType := "number"
    examples := ["max(score, 0)", "max(scores)"]
    op := .maximum },
  { name := "min"
    description := "Returns the smallest number of a list or of the arguments"
    category := .math
    parameters := [⟨"values", "number|list", "Numbers to compare", true, true⟩]
    returnType := "number"
    examples := ["min(score, 100)"]
    op := .minimum },
  { name := "list"
    description := "Wraps a value in a list; a list argument passes through, " ++
      "several arguments are collected"
    category := .collection
    parameters := [⟨"values", "any", "Values to collect", false, true⟩]
    returnType := "list"
    examples := ["list(tags).contains(\"project\")"]
    op := .collect },
  { name := "contains"
    description := "Tests substring, list membership or object key presence"
    category := .collection
    parameters := [⟨"container", "string|list|object", "Where to look", true, false⟩,
      ⟨"needle", "any", "What to look for", true, false⟩]
    returnType := "boolean"
    examples := ["contains(tags, \"urgent\")"]
    op := .contains },
  { name := "sum"
    description := "Sums the numbers of a list"
    category := .collection
    parameters := [⟨"values", "list", "Values to add", true, false⟩]
    returnType := "number"
    examples := ["sum(values)"]
    op := .total },
  { name := "avg"
    description := "Averages the numbers of a list (0 for an empty list)"
    category := .collection
    parameters := [⟨"values", "list", "Values to average", true, false⟩]
    returnType := "number"
    examples := ["avg(values)"]
    op := .average },
  { name := "count"
    description := "Returns the length of a list (0 for anything else)"
    category := .collection
    parameters := [⟨"values", "list", "Values to count", true, false⟩]
    returnType := "number"
    examples := ["count(values)"]
    op := .count },
  { name := "if"
    description := "Returns the second argument if the condition is truthy, " ++
      "else the third (or null)"
    category := .logic
    parameters := [⟨"condition", "any", "Condition to test", true, false⟩,
      ⟨"then", "any", "Value when truthy", true, false⟩,
      ⟨"else", "any", "Value when falsy", false, false⟩]
    returnType := "any"
    examples := ["if(done, \"closed\", \"open\")"]
    op := .choose },
  { name := "file"
    description := "Resolves a path, link or file to the indexed file record"
    category := .file
    parameters := [⟨"value", "string|link|file", "What to resolve", true, false⟩]
    returnType := "file"
    examples := ["file(\"Projects/Alpha.md\").hasTag(\"active\")"]
    op := .findFile },
  { name := "link"
    description := "Builds a link to a path with optional display text"
    category := .file
    parameters := [⟨"path", "string", "Target path", true, false⟩,
      ⟨"display", "any", "Display text", false, false⟩]
    returnType := "link"
    examples := ["link(\"Notes/Alpha\") == \"Notes/Alpha.md\""]
    op := .makeLink },
  { name := "html"
    description := "Marks a string as an HTML fragment for display"
    category := .render
    parameters := [⟨"value", "any", "HTML text", true, false⟩]
    returnType := "html"
    examples := ["html(\"<b>\" + escapeHTML(title) + \"</b>\")"]
    op := .markup },
  { name := "image"
    description := "Marks a value as an image reference for display"
    category := .render
    parameters := [⟨"source", "any", "Image path or URL", true, false⟩]
    returnType := "image"
    examples := ["image(cover)"]
    op := .picture },
  { name := "icon"
    description := "Marks a value as an icon name for display"
    category := .render
    parameters := [⟨"name", "any", "Icon name", true, false⟩]
    returnType := "icon"
    examples := ["icon(\"check\")"]
    op := .symbol }]

/-- Entries for methods on one kind of value, each given by name, operation, type and
description. -/
def methodsOn (receiver : Option Kind) (rows : List (String × MethodOp × String × String)) :
    List MethodEntry :=
  rows.map fun (name, op, returnType, description) =>
    { name, receiver, description, returnType, op }

/-- The builtin methods. -/
def builtinMethods : List MethodEntry :=
  methodsOn (some .string) [
    ("contains", .textContains, "boolean", "Substring test"),
    ("containsAll", .textContainsAll, "boolean", "True if every argument is a substring"),
    ("containsAny", .textContainsAny, "boolean", "True if any argument is a substring"),
    ("endsWith", .endsWith, "boolean", "Suffix test"),
    ("startsWith", .startsWith, "boolean", "Prefix test"),
    ("isEmpty", .hasNoParts, "boolean", "True for the empty string"),
    ("lower", .lower, "string", "Lower-case copy"),
    ("upper", .upper, "string", "Upper-case copy"),
    ("title", .title, "string", "Capitalizes each word"),
    ("trim", .trim, "string", "Strips surrounding whitespace"),
    ("replace", .replace, "string",
      "Replaces a literal (all occurrences) or a pattern (first, or all with the g flag)"),
    ("repeat", .times, "string", "Repeats the string n times"),
    ("reverse", .reverseText, "string", "Reversed copy"),
    ("slice", .sliceText, "string", "Substring by start and optional end index"),
    ("split", .split, "list", "Splits by a string or pattern, optionally limited")] ++
  methodsOn (some .number) [
    ("abs", .abs, "number", "Absolute value"),
    ("ceil", .ceil, "number", "Round up"),
    ("floor", .floor, "number", "Round down"),
    ("round", .round, "number", "Round half up to optional digits"),
    ("toFixed", .toFixed, "string", "Fixed-point text with the given precision"),
    ("isEmpty", .never, "boolean", "Always false for a number")] ++
  methodsOn (some .date) [
    ("date", .startOfDay, "date", "Truncates to the start of the day"),
    ("format", .format, "string", "Formats with YYYY, MM, DD, HH, mm, ss and SSS tokens"),
    ("time", .clockTime, "string", "Time of day as HH:mm:ss"),
    ("relative", .relative, "string", "Human phrase relative to now, e.g. '3 days ago'"),
    ("isEmpty", .never, "boolean", "Always false for a date")] ++
  methodsOn (some .list) [
    ("contains", .listContains, "boolean", "Membership by value equality"),
    ("containsAll", .listContainsAll, "boolean", "True if every argument is an element"),
    ("containsAny", .listContainsAny, "boolean", "True if any argument is an element"),
    ("filter", .filter, "list", "Elements for which the expression is truthy"),
    ("map", .map, "list", "The expression evaluated for each element"),
    ("reduce", .reduce, "any",
      "Folds elements into acc, seeded by the optional second argument"),
    ("flat", .flat, "list", "Flattens nested lists completely"),
    ("flatten", .flat, "list", "Alias of flat"),
    ("isEmpty", .hasNoParts, "boolean", "True for the empty list"),
    ("join", .join, "string", "Joins display forms with a separator (default ',')"),
    ("reverse", .reverseList, "list", "Reversed copy"),
    ("slice", .sliceList, "list", "Sub-list by start and optional end index"),
    ("sort", .sort, "list", "Sorted copy using type-aware comparison"),
    ("unique", .unique, "list", "Structurally distinct elements in first-seen order")] ++
  methodsOn (some .link) [
    ("asFile", .asFile, "file", "The linked file record (synthetic when not indexed)"),
    ("linksTo", .linksTo, "boolean", "True if the linked file links to the argument")] ++
  methodsOn (some .file) [
    ("asLink", .asLink, "link", "Link to this file with optional display text"),
    ("hasLink", .hasLink, "boolean", "True if the file links to the target path"),
    ("hasProperty", .hasProperty, "boolean", "True if the front matter has the key"),
    ("hasTag", .hasTag, "boolean", "True if any tag equals a name or is nested under it"),
    ("inFolder", .inFolder, "boolean", "True if the file is in the folder or below it")] ++
  methodsOn (some .object) [
    ("isEmpty", .hasNoParts, "boolean", "True for an object without keys"),
    ("keys", .keys, "list", "Keys in insertion order"),
    ("values", .values, "list", "Values in insertion order")] ++
  methodsOn (some .regexp) [
    ("matches", .matchesText, "boolean", "True if the pattern matches anywhere in the value")] ++
  methodsOn none [
    ("isTruthy", .isTruthy, "boolean", "Truthiness of the value"),
    ("isType", .isType, "boolean", "True if the value has the named kind"),
    ("toString", .toText, "string", "Display form of the value"),
    ("isEmpty", .isEmpty, "boolean", "True for null and empty strings, lists and objects")]

end NoteQuery.Library
