import Lineage.ClassPath

/-!
# The platform classes

The core classes that come with the platform: a root, the usual interfaces, numbers,
throwables and collections.
-/

namespace Lineage

/-- The definitions of the platform classes. -/
def platformClasses : List Descriptor := [
  ⟨rootName, none, []⟩,
  ⟨"java/io/Serializable", some rootName, []⟩,
  ⟨"java/lang/Cloneable", some rootName, []⟩,
  ⟨"java/lang/Runnable", some rootName, []⟩,
  ⟨"java/lang/AutoCloseable", some rootName, []⟩,
  ⟨"java/io/Closeable", some rootName, ["java/lang/AutoCloseable"]⟩,
  ⟨"java/lang/Comparable", some rootName, []⟩,
  ⟨"java/lang/CharSequence", some rootName, []⟩,
  ⟨"java/lang/Iterable", some rootName, []⟩,
  ⟨"java/lang/String", some rootName,
    ["java/io/Serializable", "java/lang/Comparable", "java/lang/CharSequence"]⟩,
  ⟨"java/lang/Number", some rootName, ["java/io/Serializable"]⟩,
  ⟨"java/lang/Integer", some "java/lang/Number", ["java/lang/Comparable"]⟩,
  ⟨"java/lang/Long", some "java/lang/Number", ["java/lang/Comparable"]⟩,
  ⟨"java/lang/Double", some "java/lang/Number", ["java/lang/Comparable"]⟩,
  ⟨"java/lang/Enum", some rootName, ["java/lang/Comparable", "java/io/Serializable"]⟩,
  ⟨"java/lang/Record", some rootName, []⟩,
  ⟨"java/lang/Thread", some rootName, ["java/lang/Runnable"]⟩,
  ⟨"java/lang/Throwable", some rootName, ["java/io/Serializable"]⟩,
  ⟨"java/lang/Exception", some "java/lang/Throwable", []⟩,
  ⟨"java/lang/RuntimeException", some "java/lang/Exception", []⟩,
  ⟨"java/lang/IllegalStateException", some "java/lang/RuntimeException", []⟩,
  ⟨"java/lang/IllegalArgumentException", some "java/lang/RuntimeException", []⟩,
  ⟨"java/lang/Error", some "java/lang/Throwable", []⟩,
  ⟨"java/util/Collection", some rootName, ["java/lang/Iterable"]⟩,
  ⟨"java/util/List", some rootName, ["java/util/Collection"]⟩,
  ⟨"java/util/Set", some rootName, ["java/util/Collection"]⟩,
  ⟨"java/util/Map", some rootName, []⟩,
  ⟨"java/util/AbstractCollection", some rootName, ["java/util/Collection"]⟩,
  ⟨"java/util/AbstractList", some "java/util/AbstractCollection", ["java/util/List"]⟩,
  ⟨"java/util/ArrayList", some "java/util/AbstractList",
    ["java/util/List", "java/lang/Cloneable", "java/io/Serializable"]⟩,
  ⟨"java/util/AbstractMap", some rootName, ["java/util/Map"]⟩,
  ⟨"java/util/HashMap", some "java/util/AbstractMap",
    ["java/util/Map", "java/lang/Cloneable", "java/io/Serializable"]⟩
]

/-- The class path of a program: the platform classes, where wanted, and then its own. -/
def ClassPath.assemble (platform : Bool) (descriptors : List Descriptor) : ClassPath :=
  ClassPath.ofDescriptors ((if platform then platformClasses else []) ++ descriptors)

end Lineage
